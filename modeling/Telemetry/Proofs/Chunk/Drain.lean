import Telemetry.Proofs.Chunk.Iterator
import Telemetry.Proofs.Chunk.Reader

/-!
# Draining an iterator

An iterator whose signal is not given gives all items of its stream when it is asked until nothing comes, and then closes
with the error after them, if there is one (`StreamIterator.drain_ofSource`). With or without a signal that could be
given makes no difference to that.
-/

namespace Telemetry

open Record ChunkReader

/-- The items of a stream are those of its chunks. -/
theorem View.exists_of_shown {view : View} {entries : List Entry} {all : List (Item × Entry)}
    (h : view.shown entries = .ok all) :
    ∃ groups, (entries.map Entry.chunk).mapM view.items = .ok groups ∧ all.map Prod.fst = groups.flatten := by
  simp only [mapM_eq_ok_iff]
  induction entries generalizing all with
  | nil =>
    obtain rfl := Except.ok.inj h
    exact ⟨[], .nil, rfl⟩
  | cons x more ih =>
    obtain ⟨first, rest, hfirst, hrest, rfl⟩ := shown_cons_eq_ok_iff.mp h
    obtain ⟨groups, hgroups, hitems⟩ := ih hrest
    refine ⟨first :: groups, .cons hfirst hgroups, ?_⟩
    rw [List.map_append, hitems, List.map_map, List.flatten_cons]
    congr 1
    exact List.map_id first

/-- The chunks of records that decode are all that the records give. -/
theorem ChunkReader.Course.map_chunk_ofRecords (e? : Option Error) {before rs : List Record} {chunks : List Chunk}
    (h : outcomes before rs = chunks.map .ok) :
    (ofRecords e? before rs).entries.map Entry.chunk = chunks ∧ (ofRecords e? before rs).error? = e? := by
  induction rs generalizing before chunks with
  | nil =>
    obtain rfl := List.map_eq_nil_iff.mp h.symm
    exact ⟨rfl, rfl⟩
  | cons r rs ih =>
    rw [outcomes] at h
    rw [ofRecords]
    cases houtcome : outcome? before r with
    | none =>
      rw [houtcome] at h
      exact ih h
    | some result =>
      rw [houtcome] at h
      cases chunks with
      | nil => simp at h
      | cons c chunks =>
        obtain ⟨rfl, hmore⟩ := List.cons_eq_cons.mp h
        obtain ⟨hchunks, herror⟩ := ih hmore
        exact ⟨congrArg _ hchunks, herror⟩

namespace StreamIterator

/-- An iterator with items before it gives them all, and then closes with the error behind them. -/
theorem Refines.drainAfter {s : Source} {it : StreamIterator} {upTo : List Record} {rest : List (Item × Entry)}
    {e? : Option Error} (h : it.Refines s (.going upTo rest e?)) (items : Array Item) :
    ∃ jt, it.drainAfter items = (items ++ (rest.map Prod.fst).toArray, jt) ∧ jt.close.1 = report e? := by
  induction rest generalizing it upTo items with
  | nil =>
    obtain ⟨hitem, hended⟩ := h.next
    refine ⟨it.next.2, ?_, hended.close.1⟩
    rw [StreamIterator.drainAfter]
    split <;> rename_i heq <;> rw [heq] at hitem
    · simp [Phase.next] at hitem
    · simp [heq]
  | cons x rest ih =>
    obtain ⟨hitem, hgoing⟩ := h.next
    obtain ⟨jt, hdrain, hclose⟩ := ih hgoing (items.push x.1)
    refine ⟨jt, ?_, hclose⟩
    rw [StreamIterator.drainAfter]
    split <;> rename_i heq <;> rw [heq] at hitem
    · obtain rfl := Option.some.inj hitem
      rw [heq] at hdrain
      rw [hdrain]
      simp
    · simp [Phase.next] at hitem

/-- An iterator over a source gives the items of all its chunks, and then closes with the error after them. -/
theorem drain_ofSource (s : Source) (view : View) (token? : Option CancelToken)
    (htoken : token?.any CancelToken.isCancelled = false) :
    ∃ groups jt, ((Course.ofSource s).entries.map Entry.chunk).mapM view.items = .ok groups ∧
      (view.ofSource s token?).drain = (groups.flatten.toArray, jt) ∧
      jt.close.1 = report (Course.ofSource s).error? := by
  obtain ⟨-, -, all, hall, -⟩ := keeps_protocol s view
  have hstart := Refines.ofSource hall token?
  rw [Phase.start, htoken, if_neg (by decide)] at hstart
  obtain ⟨jt, hdrain, hclose⟩ := hstart.drainAfter #[]
  obtain ⟨groups, hgroups, hitems⟩ := View.exists_of_shown hall
  refine ⟨groups, jt, hgroups, ?_, hclose⟩
  rw [drain, hdrain, hitems, Array.empty_append]

end StreamIterator

end Telemetry
