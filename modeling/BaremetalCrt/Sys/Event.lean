import BaremetalCrt.Library.HeadedList
import BaremetalCrt.Library.Runs
import BaremetalCrt.Sys.Target

/-!
# Event handlers

Handlers for events are list nodes. A list has a head, which is a handler that is never
called. A handler is added at the end of a list, is taken out of one, and is called when
an event with its number is handled.

## Implementation notes

A loop along `hnd_next` that visits more nodes than there are visits one twice and does not
end; a function whose loop does not end has no result. The callbacks act on a state that has
no part of the lists. A handler that is in no list may point anywhere, as a removed handler
does.
-/

namespace BaremetalCrt

open HeadedList

/-- `EVENT_HANDLED`. -/
def eventHandled : Int := 1

/-- `EVENT_NOT_HANDLED`. -/
def eventNotHandled : Int := 2

/-- The fields `hnd_next` of the heads and handlers, and `event` of the handlers. -/
structure EventLists (K H : Type) where
  next : K ⊕ H → Option H
  event : H → Int

/-- What handling an event leaves: the state of the callbacks, each call with its result, and
the value returned. -/
structure HandleResult (H σ : Type) where
  world : σ
  calls : List (H × Int)
  res : Int

/-- A call that changes a list. -/
inductive EventCall (K H : Type) where
  | add (head : Option K) (handler : Option H)
  | remove (head : Option K) (handler : Option H)

namespace EventLists

variable {K H σ : Type} [DecidableEq H]

/-- The loop of `k_event_handle_generic`. -/
def handleLoop (s : EventLists K H) (func : H → Int → σ → σ × Int) (event : Int) :
    Nat → Option H → Int → σ → Option (HandleResult H σ)
  | _, none, res, w => some ⟨w, [], res⟩
  | 0, some _, _, _ => none
  | n + 1, some h, res, w =>
      if s.event h = event then
        let called := func h event w
        let res := if called.2 = eventHandled then eventHandled else res
        (handleLoop s func event n (s.next (.inr h)) res called.1).map fun out =>
          { out with calls := (h, called.2) :: out.calls }
      else handleLoop s func event n (s.next (.inr h)) res w

variable [DecidableEq K] [Fintype H]

/-- `k_event_add_handler`. -/
def kEventAddHandler (s : EventLists K H) (head : Option K) (handler : Option H) :
    Option (EventLists K H × Int) :=
  match head, handler with
  | some head, some handler =>
      (lastNode s.next (Fintype.card H + 1) (.inl head)).map fun last =>
        ({ s with
            next := Function.update (Function.update s.next last (some handler))
              (.inr handler) none }, 0)
  | _, _ => some (s, -einval)

/-- `k_event_remove_handler`. -/
def kEventRemoveHandler (s : EventLists K H) (head : Option K) (handler : Option H) :
    Option (EventLists K H × Int) :=
  match head, handler with
  | some head, some handler =>
      (findBefore s.next handler (Fintype.card H + 1) (.inl head)).map fun
        | some h => ({ s with next := Function.update s.next h (s.next (.inr handler)) }, 0)
        | none => (s, -einval)
  | _, _ => some (s, -einval)

/-- `k_event_handle_generic`. -/
def kEventHandleGeneric (s : EventLists K H) (func : H → Int → σ → σ × Int) (event : Int)
    (hndHead : Option H) (w : σ) : Option (HandleResult H σ) :=
  handleLoop s func event (Fintype.card H) hndHead eventNotHandled w

/-- One call, with its result. -/
def call (s : EventLists K H) : EventCall K H → Option (EventLists K H × Int)
  | .add head handler => s.kEventAddHandler head handler
  | .remove head handler => s.kEventRemoveHandler head handler

/-- The lists after one call. -/
def callStep (s : EventLists K H) (c : EventCall K H) : Option (EventLists K H) :=
  (s.call c).map Prod.fst

end EventLists

section Spec

variable {K H σ : Type}

/-- Call handlers in order, and note what each returned. -/
def callEach (func : H → Int → σ → σ × Int) (event : Int) : List H → σ → σ × List (H × Int)
  | [], w => (w, [])
  | h :: hs, w =>
      let called := func h event w
      let rest := callEach func event hs called.1
      (rest.1, (h, called.2) :: rest.2)

theorem callEach_handlers (func : H → Int → σ → σ × Int) (event : Int) (hs : List H) (w : σ) :
    (callEach func event hs w).2.map Prod.fst = hs := by
  induction hs generalizing w with
  | nil => rfl
  | cons h hs ih => exact congrArg (h :: ·) (ih (func h event w).1)

variable [DecidableEq K] [DecidableEq H]

/-- The handlers of each head after a call. -/
def handlersStep (L : K → List H) : EventCall K H → K → List H
  | .add (some head) (some handler) => Function.update L head (L head ++ [handler])
  | .remove (some head) (some handler) => Function.update L head ((L head).erase handler)
  | _ => L

/-- The handlers that calls added and did not remove, in the order of addition. -/
def handlersAfter (L : K → List H) (cs : List (EventCall K H)) : K → List H :=
  cs.foldl handlersStep L

/-- A call adds a handler only when that is in no list. -/
def EventCall.Legal (L : K → List H) : EventCall K H → Prop
  | .add _ (some handler) => ∀ k, handler ∉ L k
  | _ => True

/-- Each call of a sequence is legal when it is made. -/
def LegalCalls (L : K → List H) : List (EventCall K H) → Prop
  | [] => True
  | c :: cs => c.Legal L ∧ LegalCalls (handlersStep L c) cs

end Spec

namespace EventLists

variable {K H σ : Type} [DecidableEq K] [DecidableEq H] [Fintype H] {s : EventLists K H}
  {L : K → List H}

omit [DecidableEq K] [DecidableEq H] in
/-- A list is never longer than a loop that ends. -/
theorem length_lt {x : K ⊕ H} {as : List H} (h : Behind s.next x as) :
    as.length < Fintype.card H + 1 :=
  Nat.lt_succ_of_le h.nodup.length_le_card

section Calls

variable {k : K} {as : List H} {a : H}

theorem kEventAddHandler_eq (h : Behind s.next (.inl k) as) (a : H) :
    s.kEventAddHandler (some k) (some a) =
      some ({ s with
        next := Function.update (Function.update s.next (lastOf (.inl k) as) (some a))
          (.inr a) none }, 0) := by
  simp only [kEventAddHandler, h.lastNode_eq (length_lt h), Option.map_some]

theorem kEventRemoveHandler_of_mem (h : Behind s.next (.inl k) as) (ha : a ∈ as) :
    s.kEventRemoveHandler (some k) (some a) =
      some ({ s with
        next := Function.update s.next (before a (.inl k) as) (s.next (.inr a)) }, 0) := by
  simp only [kEventRemoveHandler, h.findBefore_eq (length_lt h) a, if_pos ha, Option.map_some]

theorem kEventRemoveHandler_of_notMem (h : Behind s.next (.inl k) as) (ha : a ∉ as) :
    s.kEventRemoveHandler (some k) (some a) = some (s, -einval) := by
  simp only [kEventRemoveHandler, h.findBefore_eq (length_lt h) a, if_neg ha, Option.map_some]

/-- Adding returns where all walks end, and keeps it so. -/
theorem kEventAddHandler_ends (h : Ends s.next) (head : Option K) (handler : Option H) :
    ∃ t r, s.kEventAddHandler head handler = some (t, r) ∧ Ends t.next := by
  rcases head with _ | k
  · exact ⟨s, _, rfl, h⟩
  · rcases handler with _ | a
    · exact ⟨s, _, rfl, h⟩
    · obtain ⟨as, has⟩ := h (.inl k)
      exact ⟨_, _, kEventAddHandler_eq has a, h.link _ a⟩

/-- Removing returns where all walks end, and keeps it so. -/
theorem kEventRemoveHandler_ends (h : Ends s.next) (head : Option K) (handler : Option H) :
    ∃ t r, s.kEventRemoveHandler head handler = some (t, r) ∧ Ends t.next := by
  rcases head with _ | k
  · exact ⟨s, _, rfl, h⟩
  · rcases handler with _ | a
    · exact ⟨s, _, rfl, h⟩
    · obtain ⟨as, has⟩ := h (.inl k)
      by_cases ha : a ∈ as
      · exact ⟨_, _, kEventRemoveHandler_of_mem has ha, h.unlink (has.next_before ha)⟩
      · exact ⟨_, _, kEventRemoveHandler_of_notMem has ha, h⟩

end Calls

/-- A legal call returns, and does to the lists what it is for. -/
theorem callStep_lists (h : Lists s.next L) (c : EventCall K H) (hc : c.Legal L) :
    ∃ t, s.callStep c = some t ∧ Lists t.next (handlersStep L c) ∧ t.event = s.event := by
  rcases c with ⟨_ | k, _ | a⟩ | ⟨_ | k, _ | a⟩
  case add.some.some =>
    exact ⟨_, congrArg (Option.map Prod.fst) (kEventAddHandler_eq (h.behind k) a),
      h.append hc, rfl⟩
  case remove.some.some =>
    by_cases ha : a ∈ L k
    · exact ⟨_, congrArg (Option.map Prod.fst) (kEventRemoveHandler_of_mem (h.behind k) ha),
        h.unlink ha, rfl⟩
    · refine ⟨s, congrArg (Option.map Prod.fst)
        (kEventRemoveHandler_of_notMem (h.behind k) ha), ?_, rfl⟩
      rw [handlersStep, List.erase_of_not_mem ha, Function.update_eq_self]
      exact h
  all_goals exact ⟨s, rfl, h, rfl⟩

/-- A sequence of legal calls returns, and the lists are those of the handlers that were added
and not removed. -/
theorem exec_lists (h : Lists s.next L) (cs : List (EventCall K H)) (hcs : LegalCalls L cs) :
    ∃ t, LabelledSystem.exec callStep s cs = some t ∧ Lists t.next (handlersAfter L cs) ∧
      t.event = s.event := by
  induction cs generalizing s L with
  | nil => exact ⟨s, rfl, h, rfl⟩
  | cons c cs ih =>
      obtain ⟨hc, hcs⟩ := hcs
      obtain ⟨m, hm, hmL, hevent⟩ := callStep_lists h c hc
      obtain ⟨t, ht, htL, htevent⟩ := ih hmL hcs
      exact ⟨t, (LabelledSystem.exec_cons_iff callStep).mpr ⟨m, hm, ht⟩, htL,
        htevent.trans hevent⟩

omit [DecidableEq K] [DecidableEq H] [Fintype H] in
/-- The loop calls the handlers of its list that are for the event. -/
theorem handleLoop_eq {first : Option H} {hs : List H}
    (h : Chain (fun a => s.next (.inr a)) first hs) (func : H → Int → σ → σ × Int) (event : Int)
    {n : Nat} (hn : hs.length ≤ n) (res : Int) (w : σ) :
    s.handleLoop func event n first res w =
      let out := callEach func event (hs.filter (s.event · = event)) w
      some ⟨out.1, out.2,
        if ∃ c ∈ out.2, c.2 = eventHandled then eventHandled else res⟩ := by
  induction hs generalizing first n res w with
  | nil =>
      obtain rfl : first = none := h
      cases n <;> simp [handleLoop, callEach]
  | cons a hs ih =>
      obtain ⟨rfl, h⟩ := h
      cases n with
      | zero => exact absurd hn (Nat.not_succ_le_zero _)
      | succ n =>
          have hn := Nat.le_of_succ_le_succ hn
          by_cases ha : s.event a = event
          · -- the result of this call decides what the rest starts from
            rw [handleLoop, if_pos ha, List.filter_cons_of_pos (by simpa using ha)]
            simp only [ih h hn, Option.map_some, callEach, List.exists_mem_cons_iff]
            by_cases hcall : (func a event w).2 = eventHandled
            · simp only [hcall, if_true, true_or, ite_self]
            · simp only [hcall, if_false, false_or]
          · rw [handleLoop, if_neg ha, List.filter_cons_of_neg (by simpa using ha)]
            exact ih h hn res w

omit [DecidableEq K] [DecidableEq H] in
theorem kEventHandleGeneric_eq (h : Lists s.next L) (k : K) (func : H → Int → σ → σ × Int)
    (event : Int) (w : σ) :
    s.kEventHandleGeneric func event (s.next (.inl k)) w =
      let out := callEach func event ((L k).filter (s.event · = event)) w
      some ⟨out.1, out.2,
        if ∃ c ∈ out.2, c.2 = eventHandled then eventHandled else eventNotHandled⟩ :=
  handleLoop_eq (h.behind k) func event (h.behind k).nodup.length_le_card _ w

/-- Every sequence of calls that add only handlers that are in no list returns. It leaves
finite lists of the handlers added and not removed, in the order of addition. Removal then
fails exactly for handlers that are not in the list and changes nothing when it fails. An
event calls the handlers of a list with its number, once each and in order, and is handled
exactly if one of them handled it. -/
theorem event_lists_follow_calls (s : EventLists K H) (cs : List (EventCall K H))
    (hs : ∀ k, s.next (.inl k) = none) (hcs : LegalCalls (fun _ => []) cs) :
    ∃ t, LabelledSystem.exec callStep s cs = some t ∧
      let L := handlersAfter (fun _ => []) cs
      (∀ k, Behind t.next (.inl k) (L k)) ∧
      (∀ k a, ∃ u r, t.kEventRemoveHandler (some k) (some a) = some (u, r) ∧
        (r ≠ 0 ↔ a ∉ L k) ∧ (r ≠ 0 → u = t)) ∧
      ∀ (σ : Type) (func : H → Int → σ → σ × Int) (event : Int) (w : σ) (k : K),
        ∃ out, t.kEventHandleGeneric func event (t.next (.inl k)) w = some out ∧
          out.calls.map Prod.fst = (L k).filter (s.event · = event) ∧
          (out.world, out.calls) = callEach func event (out.calls.map Prod.fst) w ∧
          (out.res = eventHandled ↔ ∃ c ∈ out.calls, c.2 = eventHandled) ∧
          (out.res ≠ eventHandled → out.res = eventNotHandled) := by
  obtain ⟨t, ht, hL, hevent⟩ := exec_lists (Lists.empty hs) cs hcs
  refine ⟨t, ht, hL.behind, ?_, ?_⟩
  · intro k a
    by_cases ha : a ∈ handlersAfter (fun _ => []) cs k
    · exact ⟨_, _, kEventRemoveHandler_of_mem (hL.behind k) ha, by simp [ha], by simp⟩
    · exact ⟨_, _, kEventRemoveHandler_of_notMem (hL.behind k) ha, by simp [ha, einval],
        fun _ => rfl⟩
  · intro σ func event w k
    refine ⟨_, kEventHandleGeneric_eq hL k func event w, ?_, ?_, ?_, ?_⟩
    · rw [← hevent]
      exact callEach_handlers ..
    · rw [callEach_handlers]
    · split <;> simp_all [eventHandled, eventNotHandled]
    · split <;> simp

/-- Two heads share three handlers, which move between the lists. -/
theorem event_lists_follow_calls_move :
    let cs : List (EventCall Bool (Fin 3)) :=
      [.add (some true) (some 0), .add (some true) (some 1), .remove (some true) (some 0),
        .remove (some false) (some 1), .add (some false) (some 0), .add (some true) none,
        .add (some true) (some 2)]
    let s : EventLists Bool (Fin 3) := ⟨Sum.elim (fun _ => none) (fun _ => some 2), fun _ => 7⟩
    LegalCalls (fun _ => []) cs ∧ handlersAfter (fun _ => []) cs true = [1, 2] ∧
      ∃ t, LabelledSystem.exec callStep s cs = some t ∧ Behind t.next (.inl true) [1, 2] := by
  intro cs s
  have hcs : LegalCalls (fun _ => []) cs := by
    simp [cs, LegalCalls, EventCall.Legal, handlersStep]
  obtain ⟨t, ht, hbehind, -⟩ := event_lists_follow_calls s cs (fun _ => rfl) hcs
  have hL : handlersAfter (fun _ => []) cs true = [1, 2] := by decide
  exact ⟨hcs, hL, t, ht, hL ▸ hbehind true⟩

end EventLists

end BaremetalCrt
