import Telemetry.Chunk.Iterator
import Telemetry.Proofs.Chunk.Course

/-!
# The protocol of iterators

An iterator is asked for items, for the metadata document and to close, and its cancellation signal may be given, in any
order. What it should answer needs nothing of how it works: an iterator has items before it and may have an error
behind them, or it is over, with or without an error still to be reported (`StreamIterator.Phase`).

Calls leave items before an iterator or one of them has ended it (`Phase.after_cases`), and when it is over it stays so
(`Phase.after_ended`). What an iterator owes its caller follows: which items come (`Phase.next_of_undisturbed`), that
there are none any more once it is over (`Phase.next_of_next_eq_none`), when closing reports the error
(`Phase.close_eq_error_iff`), and that this happens at most once (`Phase.countP_isReport_le`).
-/

namespace Telemetry.StreamIterator

open Record ChunkReader

/-! ## Calls and answers -/

/-- What an iterator can be asked, or be told by its signal. -/
inductive Call where
  | next
  | close
  | metadata
  | cancel
  deriving DecidableEq

/-- What an iterator answers: an item, whether the stream was found broken, a document, or nothing. -/
inductive Answer where
  | item (x? : Option Item)
  | closed (result : Except Error Unit)
  | metadata (d? : Option Document)
  | done

/-- Whether a call ends the iterator. -/
def Call.isEnding : Call → Bool
  | .close | .cancel => true
  | .next | .metadata => false

namespace Answer

/-- The item in an answer. -/
def item? : Answer → Option Item
  | .item x? => x?
  | _ => none

/-- Whether an answer reports an error. -/
def isReport : Answer → Bool
  | .closed (.error _) => true
  | _ => false

end Answer

/-- No call has ended the iterator. -/
def Undisturbed (calls : List Call) : Prop :=
  ∀ c ∈ calls, c.isEnding = false

/-! ## Phases -/

/-- What can be expected of an iterator: the items that are still to come, each with the chunk it comes of, and the
error after them; or, when it is over, the error that is still to be reported. The records are those up to the chunk of
the last item. -/
inductive Phase where
  | going (upTo : List Record) (rest : List (Item × Entry)) (error? : Option Error)
  | ended (upTo : List Record) (error? : Option Error) (isReleased : Bool)

/-- What is answered to a call to close. -/
def report : Option Error → Except Error Unit
  | some e => .error e
  | none => .ok ()

namespace Phase

/-- The records up to the chunk of the last item. -/
def upTo : Phase → List Record
  | .going upTo _ _ => upTo
  | .ended upTo _ _ => upTo

/-- The next item, if there is one. -/
def next : Phase → Option Item × Phase
  | .going upTo [] error? => (none, .ended upTo error? true)
  | .going _ ((x, y) :: rest) error? => (some x, .going y.upTo rest error?)
  | .ended upTo error? _ => (none, .ended upTo error? true)

/-- The error to be reported, if there is one. -/
def close : Phase → Except Error Unit × Phase
  | .going upTo _ _ => (.ok (), .ended upTo none true)
  | .ended upTo error? _ => (report error?, .ended upTo none true)

/-- The phase after the signal. -/
def cancel : Phase → Phase
  | .going upTo _ _ => .ended upTo none false
  | .ended upTo error? isReleased => .ended upTo error? isReleased

/-- The document of the last metadata record before the chunk of the last item. -/
def metadata? (p : Phase) : Option Document :=
  lastMetadata? p.upTo

/-- Whether the source has been released. -/
def isReleased : Phase → Bool
  | .going _ _ _ => false
  | .ended _ _ isReleased => isReleased

/-- The phase of an iterator over a stream with these items, and the error after them, from which nothing has been
read. -/
def start (token? : Option CancelToken) (items : List (Item × Entry)) (error? : Option Error) : Phase :=
  if token?.any CancelToken.isCancelled then .ended [] none false else .going [] items error?

theorem start_fresh (items : List (Item × Entry)) (error? : Option Error) :
    start (some .fresh) items error? = .going [] items error? :=
  rfl

/-- The answer to a call, and the phase after it. -/
def serve (p : Phase) : Call → Answer × Phase
  | .next => (.item p.next.1, p.next.2)
  | .close => (.closed p.close.1, p.close.2)
  | .metadata => (.metadata p.metadata?, p)
  | .cancel => (.done, p.cancel)

/-- The phase after calls, one after the other. -/
def after (p : Phase) (calls : List Call) : Phase :=
  calls.foldl (fun p c => (p.serve c).2) p

/-- The answers to calls, one after the other. -/
def answers (p : Phase) : List Call → List Answer
  | [] => []
  | c :: calls => (p.serve c).1 :: answers (p.serve c).2 calls

@[simp] theorem after_nil (p : Phase) : p.after [] = p :=
  rfl

@[simp] theorem after_cons (p : Phase) (c : Call) (calls : List Call) :
    p.after (c :: calls) = (p.serve c).2.after calls :=
  rfl

theorem after_append (p : Phase) (calls calls' : List Call) :
    p.after (calls ++ calls') = (p.after calls).after calls' :=
  List.foldl_append

variable {upTo : List Record} {items : List (Item × Entry)} {error? : Option Error} {calls : List Call}

/-! ## Calls in any order -/

/-- When the iterator is over it stays so. It has its error until it is closed. -/
theorem after_ended (upTo : List Record) (error? : Option Error) (calls : List Call) (isReleased : Bool) :
    ∃ isReleased', (ended upTo error? isReleased).after calls =
      ended upTo (if .close ∈ calls then none else error?) isReleased' ∧ (isReleased = true → isReleased' = true) := by
  induction calls generalizing error? isReleased with
  | nil => exact ⟨isReleased, rfl, id⟩
  | cons c calls ih =>
    cases c with
    | next =>
      obtain ⟨r, hafter, hr⟩ := ih error? true
      exact ⟨r, by simpa [serve, next] using hafter, fun _ => hr rfl⟩
    | close =>
      obtain ⟨r, hafter, hr⟩ := ih none true
      exact ⟨r, by simpa [serve, close] using hafter, fun _ => hr rfl⟩
    | metadata =>
      obtain ⟨r, hafter, hr⟩ := ih error? isReleased
      exact ⟨r, by simpa [serve] using hafter, hr⟩
    | cancel =>
      obtain ⟨r, hafter, hr⟩ := ih error? isReleased
      exact ⟨r, by simpa [serve, cancel] using hafter, hr⟩

/-- Calls leave items before the iterator, or one of them has ended it: the first call to find no item any more, or
the first to close it or give the signal. -/
theorem after_cases (upTo : List Record) (items : List (Item × Entry)) (error? : Option Error) (calls : List Call) :
    (Undisturbed calls ∧ calls.count .next ≤ items.length ∧ ∃ upTo',
      (going upTo items error?).after calls = going upTo' (items.drop (calls.count .next)) error?) ∨
    ∃ first c later upTo' isReleased, calls = first ++ c :: later ∧ Undisturbed first ∧
      ((c = .next ∧ first.count .next = items.length ∧ (going upTo items error?).after calls =
          ended upTo' (if .close ∈ later then none else error?) isReleased) ∨
        (c.isEnding = true ∧ (going upTo items error?).after calls = ended upTo' none isReleased)) := by
  induction calls generalizing upTo items with
  | nil => exact .inl ⟨by simp [Undisturbed], Nat.zero_le _, upTo, rfl⟩
  | cons c calls ih =>
    have hundisturbed {calls : List Call} (h : Undisturbed calls) (hc : c.isEnding = false) :
        Undisturbed (c :: calls) := List.forall_mem_cons.mpr ⟨hc, h⟩
    cases c with
    | next =>
      cases items with
      | nil =>
        obtain ⟨r, hafter, -⟩ := after_ended upTo error? calls true
        exact .inr ⟨[], .next, calls, upTo, r, rfl, by simp [Undisturbed], .inl ⟨rfl, rfl, hafter⟩⟩
      | cons x rest =>
        rcases ih x.2.upTo rest with ⟨h, hcount, upTo', hafter⟩ | ⟨first, c, later, upTo', r, rfl, h, hcase⟩
        · refine .inl ⟨hundisturbed h rfl, ?_, upTo', ?_⟩
          · rw [List.count_cons_self]
            exact Nat.succ_le_succ hcount
          · rw [List.count_cons_self]
            exact hafter
        · refine .inr ⟨.next :: first, c, later, upTo', r, rfl, hundisturbed h rfl, ?_⟩
          refine hcase.imp_left fun ⟨hc, hcount, hafter⟩ => ⟨hc, ?_, hafter⟩
          rw [List.count_cons_self, hcount, List.length_cons]
    | metadata =>
      rcases ih upTo items with ⟨h, hcount, upTo', hafter⟩ | ⟨first, c, later, upTo', r, rfl, h, hcase⟩
      · refine .inl ⟨hundisturbed h rfl, ?_, upTo', ?_⟩
        · rwa [List.count_cons_of_ne (by decide)]
        · rw [List.count_cons_of_ne (by decide)]
          exact hafter
      · refine .inr ⟨.metadata :: first, c, later, upTo', r, rfl, hundisturbed h rfl, ?_⟩
        refine hcase.imp_left fun ⟨hc, hcount, hafter⟩ => ⟨hc, ?_, hafter⟩
        rw [List.count_cons_of_ne (by decide), hcount]
    | close =>
      obtain ⟨r, hafter, -⟩ := after_ended upTo none calls true
      rw [ite_self] at hafter
      exact .inr ⟨[], .close, calls, upTo, r, rfl, by simp [Undisturbed], .inr ⟨rfl, hafter⟩⟩
    | cancel =>
      obtain ⟨r, hafter, -⟩ := after_ended upTo none calls false
      rw [ite_self] at hafter
      exact .inr ⟨[], .cancel, calls, upTo, r, rfl, by simp [Undisturbed], .inr ⟨rfl, hafter⟩⟩

/-! ## What an iterator owes its caller -/

@[simp] theorem close_snd (p : Phase) : p.close.2 = ended p.upTo none true := by
  cases p <;> rfl

/-- When the iterator is over, no items come. -/
theorem filterMap_item?_ended (isReleased : Bool) :
    ((ended upTo error? isReleased).answers calls).filterMap Answer.item? = [] := by
  induction calls generalizing error? isReleased with
  | nil => rfl
  | cons c calls ih => cases c <;> exact ih _

/-- The items that come are the first of all items, one for each call before something has ended the iterator. -/
theorem filterMap_item?_answers :
    ((going upTo items error?).answers calls).filterMap Answer.item? =
      (items.map Prod.fst).take ((calls.takeWhile fun c => !c.isEnding).count .next) := by
  induction calls generalizing upTo items with
  | nil => rfl
  | cons c calls ih =>
    cases c with
    | next =>
      rw [List.takeWhile_cons_of_pos rfl, List.count_cons_self]
      cases items with
      | nil => exact (filterMap_item?_ended true).trans List.take_nil.symm
      | cons x rest => exact congrArg _ ih
    | metadata =>
      rw [List.takeWhile_cons_of_pos rfl, List.count_cons_of_ne (by decide)]
      exact ih
    | close => exact filterMap_item?_ended true
    | cancel => exact filterMap_item?_ended false

/-- A call that finds no item ends the iterator, if it has not ended before, and the source is released. -/
theorem ended_of_next_eq_none {p : Phase} (h : p.next.1 = none) : ∃ error?, p.next.2 = ended p.upTo error? true := by
  cases p with
  | going upTo rest error? =>
    cases rest with
    | nil => exact ⟨error?, rfl⟩
    | cons x rest => simp [next] at h
  | ended upTo error? isReleased => exact ⟨error?, rfl⟩

/-- Until something ends the iterator, the items come one by one, and after them none. -/
theorem next_of_undisturbed (h : Undisturbed calls) :
    ((going upTo items error?).after calls).next.1 = (items[calls.count .next]?).map Prod.fst := by
  rcases after_cases upTo items error? calls with
    ⟨-, -, upTo', hafter⟩ | ⟨first, c, later, upTo', r, rfl, -, ⟨rfl, hcount, hafter⟩ | ⟨hc, -⟩⟩
  · rw [hafter, ← List.head?_drop]
    cases items.drop (calls.count .next) <;> rfl
  · have hlater : items.length ≤ (first ++ .next :: later).count .next := by
      rw [List.count_append, hcount]
      exact Nat.le_add_right _ _
    rw [hafter, List.getElem?_eq_none hlater]
    rfl
  · simp [h c (by simp)] at hc

/-- When the items have run out, what comes after them is left. -/
theorem ended_of_ran_out (h : Undisturbed calls)
    (hnone : ((going upTo items error?).after calls).next.1 = none) :
    ∃ upTo', ((going upTo items error?).after calls).next.2 = ended upTo' error? true := by
  rcases after_cases upTo items error? calls with
    ⟨-, -, upTo', hafter⟩ | ⟨first, c, later, upTo', r, rfl, -, ⟨rfl, -, hafter⟩ | ⟨hc, -⟩⟩
  · rw [hafter] at hnone ⊢
    cases hdrop : items.drop (calls.count .next) with
    | nil => exact ⟨upTo', rfl⟩
    | cons head rest => simp [hdrop, next] at hnone
  · have hclose : .close ∉ later := fun hmem => absurd (h .close (by simp [hmem])) (by decide)
    rw [hafter, if_neg hclose]
    exact ⟨upTo', rfl⟩
  · simp [h c (by simp)] at hc

/-- An item comes only if nothing has ended the iterator, in its turn. -/
theorem of_next_eq_some {x : Item} (h : ((going upTo items error?).after calls).next.1 = some x) :
    Undisturbed calls ∧ ∃ y, items[calls.count .next]? = some (x, y) ∧
      ((going upTo items error?).after calls).next.2 =
        going y.upTo (items.drop (calls.count .next + 1)) error? := by
  rcases after_cases upTo items error? calls with
    ⟨hcalls, -, upTo', hafter⟩ | ⟨first, c, later, upTo', r, rfl, -, ⟨rfl, hcount, hafter⟩ | ⟨hc, hafter⟩⟩
  · rw [hafter] at h ⊢
    rw [← List.head?_drop, ← List.tail_drop]
    cases hdrop : items.drop (calls.count .next) with
    | nil => simp [hdrop, next] at h
    | cons head rest =>
      rw [hdrop] at h
      obtain rfl := Option.some.inj h
      exact ⟨hcalls, head.2, rfl, rfl⟩
  · simp [hafter, next] at h
  · simp [hafter, next] at h

/-- Once something has ended the iterator there are no items. -/
theorem next_of_not_undisturbed (h : ¬ Undisturbed calls) :
    ((going upTo items error?).after calls).next.1 = none := by
  cases hnext : ((going upTo items error?).after calls).next.1 with
  | none => rfl
  | some x => exact absurd (of_next_eq_some hnext).1 h

/-- After a call that found no item there are none. -/
theorem next_of_next_eq_none {p : Phase} (h : p.next.1 = none) (more : List Call) :
    (p.next.2.after more).next.1 = none ∧ (p.next.2.after more).isReleased = true := by
  obtain ⟨error?, hended⟩ := ended_of_next_eq_none h
  obtain ⟨r, hafter, hr⟩ := after_ended p.upTo error? more true
  rw [hended, hafter]
  exact ⟨rfl, hr rfl⟩

/-- A source that was closed stays released. -/
theorem isReleased_of_close (p : Phase) (more : List Call) : (p.close.2.after more).isReleased = true := by
  obtain ⟨r, hafter, hr⟩ := after_ended p.upTo none more true
  rw [close_snd, hafter]
  exact hr rfl

/-- Closing reports the error exactly if a call before has run into it and no call to close has reported it. -/
theorem close_eq_error_iff {e : Error} :
    ((going upTo items error?).after calls).close.1 = .error e ↔
      error? = some e ∧
      (∃ first later, calls = first ++ .next :: later ∧ Undisturbed first ∧
        ((going upTo items error?).after first).next.1 = none) ∧
      ∀ first later, calls = first ++ .close :: later →
        ((going upTo items error?).after first).close.1 = .ok () := by
  constructor
  · intro h
    rcases after_cases upTo items error? calls with
      ⟨-, -, upTo', hafter⟩ | ⟨first, c, later, upTo', r, rfl, hfirst, ⟨rfl, hcount, hafter⟩ | ⟨-, hafter⟩⟩
    · simp [hafter, close] at h
    · by_cases hclose : .close ∈ later
      · simp [hafter, hclose, close, report] at h
      · have herror : error? = some e := by
          cases error? with
          | none => simp [hafter, close, report] at h
          | some e' => simpa [hafter, hclose, close, report] using h
        refine ⟨herror, ⟨first, later, rfl, hfirst, ?_⟩, fun before after' heq => ?_⟩
        · rw [next_of_undisturbed hfirst, hcount, List.getElem?_eq_none (Nat.le_refl _)]
          rfl
        · -- nothing has been closed yet
          have hmem : Call.close ∈ first ++ .next :: later := heq ▸ by simp
          simp only [List.mem_append, List.mem_cons, hclose, or_false, reduceCtorEq] at hmem
          exact absurd (hfirst _ hmem) (by decide)
    · simp [hafter, close, report] at h
  · rintro ⟨rfl, ⟨first, later, rfl, hfirst, hnone⟩, hunreported⟩
    obtain ⟨upTo', hended⟩ := ended_of_ran_out hfirst hnone
    have hlater (calls : List Call) : (going upTo items (some e)).after (first ++ .next :: calls) =
        (ended upTo' (some e) true).after calls := by
      rw [after_append, after_cons, serve, hended]
    by_cases hclose : .close ∈ later
    · -- the first call to close would have reported the error
      obtain ⟨before, after', rfl, hbefore⟩ := List.eq_append_cons_of_mem hclose
      obtain ⟨r, hafter, -⟩ := after_ended upTo' (some e) before true
      have hok := hunreported (first ++ .next :: before) after' (by simp)
      simp [hlater, hafter, hbefore, close, report] at hok
    · obtain ⟨r, hafter, -⟩ := after_ended upTo' (some e) later true
      rw [hlater, hafter, if_neg hclose]
      rfl

/-- When there is no error to report none is. -/
theorem countP_isReport_ended_none (isReleased : Bool) :
    ((ended upTo none isReleased).answers calls).countP Answer.isReport = 0 := by
  induction calls generalizing isReleased with
  | nil => rfl
  | cons c calls ih =>
    cases c with
    | next => exact ih true
    | close => exact ih true
    | metadata => exact ih isReleased
    | cancel => exact ih isReleased

/-- No error is reported twice. -/
theorem countP_isReport_le (p : Phase) (calls : List Call) : (p.answers calls).countP Answer.isReport ≤ 1 := by
  induction calls generalizing p with
  | nil => exact Nat.zero_le 1
  | cons c calls ih =>
    cases c with
    | close =>
      rw [answers, serve, close_snd, List.countP_cons, countP_isReport_ended_none]
      split <;> decide
    | next | metadata | cancel => exact ih _

end Phase

end Telemetry.StreamIterator
