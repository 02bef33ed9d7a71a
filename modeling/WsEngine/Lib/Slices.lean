import Mathlib.Logic.Function.Basic
import Mathlib.Data.List.Basic
import Mathlib.Tactic.Common

/-! # A stream that is reported in slices

A reader of buffers hands out parts of its input: a mark is set where a part begins, and what is
between the mark and the reader is a slice, reported where the part is complete. The marks do not
outlive a buffer. At its end the slices that are pending are reported as they are, and the next
buffer begins with the mark set again, so that a part comes in as many slices as buffers. Joining
the adjacent slices of one kind makes up for that (`same_resume`), as long as the reader has one part
open at a time and reports nothing else inside it (`track`). -/
set_option autoImplicit false

namespace Slices

variable {κ β ν : Type}

inductive Call (κ β ν : Type)
  | slice (what : κ) (items : List β)
  | notify (notice : ν)

/-- What a reader does to its marks, with a slice reported up to the item it stands at or through
it. -/
inductive Action (κ β ν : Type)
  | mark (what : κ)
  | slice (what : κ)
  | sliceThrough (what : κ) (item : β)
  | notify (notice : ν)
  | advance (item : β)

namespace Action

def isAdvance : Action κ β ν → Bool
  | advance _ => true
  | _ => false

end Action

/-- What the reader went over. -/
def items : List (Action κ β ν) → List β
  | [] => []
  | .advance item :: actions => item :: items actions
  | _ :: actions => items actions

@[simp] theorem items_append (actions more : List (Action κ β ν)) :
    items (actions ++ more) = items actions ++ items more := by
  induction actions with
  | nil => rfl
  | cons action actions ih => cases action <;> simp [items, ih]

@[simp] theorem items_advances (passed : List β) :
    items (passed.map (Action.advance : β → Action κ β ν)) = passed := by
  induction passed with
  | nil => rfl
  | cons item passed ih => simp [items, ih]

/-- How far the reader went. -/
def advanced (actions : List (Action κ β ν)) : ℕ := (items actions).length

/-- What is done besides advancing. -/
def signs (actions : List (Action κ β ν)) : List (Action κ β ν) :=
  actions.filter fun action => !action.isAdvance

@[simp] theorem signs_nil : signs ([] : List (Action κ β ν)) = [] := rfl

@[simp] theorem signs_append (actions more : List (Action κ β ν)) :
    signs (actions ++ more) = signs actions ++ signs more := List.filter_append ..

@[simp] theorem signs_advances (items : List β) :
    signs (items.map (Action.advance : β → Action κ β ν)) = [] := by
  simp [signs, Action.isAdvance]

variable [DecidableEq κ]

/-! ## Joining slices -/

def joinOne : Call κ β ν → List (Call κ β ν) → List (Call κ β ν)
  | .slice what items, .slice what' more :: calls =>
    if what = what' then .slice what (items ++ more) :: calls
    else .slice what items :: .slice what' more :: calls
  | call, calls => call :: calls

/-- Adjacent slices of one kind as one. -/
def joined (calls : List (Call κ β ν)) : List (Call κ β ν) := calls.foldr joinOne []

def Same (calls calls' : List (Call κ β ν)) : Prop := joined calls = joined calls'

theorem joinOne_slices (what : κ) (items more : List β) (calls : List (Call κ β ν)) :
    joinOne (.slice what items) (joinOne (.slice what more) calls) =
      joinOne (.slice what (items ++ more)) calls := by
  cases calls with
  | nil => simp [joinOne]
  | cons call calls =>
    cases call with
    | notify notice => simp [joinOne]
    | slice what' others =>
      by_cases h : what = what'
      · simp [joinOne, h]
      · simp [joinOne, h]

theorem foldr_joinOne (call : Call κ β ν) (calls rest : List (Call κ β ν)) :
    (joinOne call calls).foldr joinOne rest = joinOne call (calls.foldr joinOne rest) := by
  cases call with
  | notify notice => rfl
  | slice what items =>
    cases calls with
    | nil => rfl
    | cons call calls =>
      cases call with
      | notify notice => rfl
      | slice what' more =>
        by_cases h : what = what'
        · subst h
          rw [List.foldr_cons, joinOne_slices]
          simp only [joinOne, if_true, List.foldr_cons]
        · simp only [joinOne, if_neg h, List.foldr_cons]

theorem foldr_joined (calls rest : List (Call κ β ν)) :
    (joined calls).foldr joinOne rest = calls.foldr joinOne rest := by
  induction calls with
  | nil => rfl
  | cons call calls ih =>
    change (joinOne call (joined calls)).foldr joinOne rest = _
    rw [foldr_joinOne, ih, List.foldr_cons]

theorem joined_append (calls more : List (Call κ β ν)) :
    joined (calls ++ more) = (joined calls).foldr joinOne (joined more) := by
  rw [foldr_joined, joined, joined, List.foldr_append]

namespace Same

variable {calls calls' more more' : List (Call κ β ν)}

theorem refl (calls : List (Call κ β ν)) : Same calls calls := rfl

theorem symm (h : Same calls calls') : Same calls' calls := Eq.symm h

theorem trans {calls'' : List (Call κ β ν)} (h : Same calls calls') (h' : Same calls' calls'') :
    Same calls calls'' := Eq.trans h h'

theorem append (h : Same calls calls') (h' : Same more more') :
    Same (calls ++ more) (calls' ++ more') := by
  unfold Same at h h' ⊢
  rw [joined_append, joined_append, h, h']

theorem slices (what : κ) (items items' : List β) (calls : List (Call κ β ν)) :
    Same (.slice what (items ++ items') :: calls)
      (.slice what items :: .slice what items' :: calls) :=
  (joinOne_slices what items items' (joined calls)).symm

end Same

/-! ## Cutting slices -/

/-- The calls come to those, with every slice cut into pieces. -/
inductive Cuts : List (Call κ β ν) → List (Call κ β ν) → Prop
  | nil : Cuts [] []
  | notify (notice : ν) {calls whole : List (Call κ β ν)} (h : Cuts calls whole) :
    Cuts (.notify notice :: calls) (.notify notice :: whole)
  | slice (what : κ) {parts : List (List β)} (hne : parts ≠ []) {calls whole : List (Call κ β ν)}
    (h : Cuts calls whole) : Cuts (parts.map (.slice what) ++ calls) (.slice what parts.flatten :: whole)

/-- What is joined was cut. -/
theorem cuts_joined (calls : List (Call κ β ν)) : Cuts calls (joined calls) := by
  induction calls with
  | nil => exact .nil
  | cons call calls ih =>
    change Cuts (call :: calls) (joinOne call (joined calls))
    cases call with
    | notify notice => exact .notify notice ih
    | slice what items =>
      have halone : Cuts (.slice what items :: calls) (.slice what items :: joined calls) := by
        have hcut := Cuts.slice what (List.cons_ne_nil items []) ih
        rwa [List.flatten_singleton] at hcut
      cases hjoined : joined calls with
      | nil =>
        rw [hjoined] at halone
        exact halone
      | cons next whole =>
        rw [hjoined] at halone ih
        cases next with
        | notify notice => exact halone
        | slice what' more =>
          by_cases hw : what = what'
          · subst hw
            rw [joinOne, if_pos rfl]
            cases ih with
            | slice _ hne h => exact .slice what (List.cons_ne_nil items _) h
          · rw [joinOne, if_neg hw]
            exact halone

omit [DecidableEq κ] in
theorem Cuts.split {calls whole more : List (Call κ β ν)} (h : Cuts calls (whole ++ more)) :
    ∃ first second, calls = first ++ second ∧ Cuts first whole ∧ Cuts second more := by
  generalize heq : whole ++ more = all at h
  induction h generalizing whole with
  | nil =>
    obtain ⟨rfl, rfl⟩ := List.append_eq_nil_iff.mp heq
    exact ⟨[], [], rfl, .nil, .nil⟩
  | @notify notice calls all h ih =>
    cases whole with
    | nil =>
      subst heq
      exact ⟨[], _, rfl, .nil, .notify notice h⟩
    | cons call whole =>
      obtain ⟨rfl, hrest⟩ := List.cons.inj heq
      obtain ⟨first, second, rfl, hfirst, hsecond⟩ := ih hrest
      exact ⟨_, second, rfl, .notify notice hfirst, hsecond⟩
  | @slice what parts hne calls all h ih =>
    cases whole with
    | nil =>
      subst heq
      exact ⟨[], _, rfl, .nil, .slice what hne h⟩
    | cons call whole =>
      obtain ⟨rfl, hrest⟩ := List.cons.inj heq
      obtain ⟨first, second, rfl, hfirst, hsecond⟩ := ih hrest
      exact ⟨_, second, (List.append_assoc ..).symm, .slice what hne hfirst, hsecond⟩

omit [DecidableEq κ] in
theorem Cuts.mem_notify {calls whole : List (Call κ β ν)} (h : Cuts calls whole) (notice : ν) :
    .notify notice ∈ calls ↔ .notify notice ∈ whole := by
  induction h with
  | nil => rfl
  | notify _ h ih => simp [ih]
  | slice what hne h ih => simp [ih]

theorem Same.mem_notify {calls calls' : List (Call κ β ν)} (h : Same calls calls') (notice : ν) :
    .notify notice ∈ calls ↔ .notify notice ∈ calls' := by
  rw [(cuts_joined calls).mem_notify, (cuts_joined calls').mem_notify, h]

/-! ## Marks -/

abbrev Marks (κ β : Type) := κ → Option (List β)

/-- The slice of a mark with what is behind it, if the mark is set. -/
def Marks.report (marks : Marks κ β) (what : κ) (more : List β) : List (Call κ β ν) :=
  match marks what with
  | some items => [.slice what (items ++ more)]
  | none => []

def act (s : Marks κ β × List (Call κ β ν)) : Action κ β ν → Marks κ β × List (Call κ β ν)
  | .mark what => (Function.update s.1 what (some ((s.1 what).getD [])), s.2)
  | .slice what => (Function.update s.1 what none, s.2 ++ s.1.report what [])
  | .sliceThrough what item => (Function.update s.1 what none, s.2 ++ s.1.report what [item])
  | .notify notice => (s.1, s.2 ++ [.notify notice])
  | .advance item => (fun what => (s.1 what).map (· ++ [item]), s.2)

def Marks.run (marks : Marks κ β) (actions : List (Action κ β ν)) :
    Marks κ β × List (Call κ β ν) :=
  actions.foldl act (marks, [])

/-! ## One part at a time -/

/-- The part that is open, with its items so far. -/
abbrev Pending (κ β : Type) := Option (κ × List β)

/-- Which part is open after an action. There is no next one where two are open at once, or where
something else is reported inside one. -/
def trackOne : Option κ → Action κ β ν → Option (Option κ)
  | none, .mark what => some (some what)
  | some what', .mark what => if what = what' then some (some what) else none
  | none, .slice _ => some none
  | some what', .slice what => if what = what' then some none else none
  | none, .sliceThrough _ _ => some none
  | some what', .sliceThrough what _ => if what = what' then some none else none
  | none, .notify _ => some none
  | some _, .notify _ => none
  | part, .advance _ => some part

@[simp] theorem trackOne_advance (part : Option κ) (item : β) :
    trackOne part (.advance item : Action κ β ν) = some part := by
  cases part <;> rfl

def track (part : Option κ) : List (Action κ β ν) → Option (Option κ)
  | [] => some part
  | action :: actions => (trackOne part action).bind fun part => track part actions

theorem track_append (part : Option κ) (actions more : List (Action κ β ν)) :
    track part (actions ++ more) = (track part actions).bind fun part => track part more := by
  induction actions generalizing part with
  | nil => rfl
  | cons action actions ih =>
    rw [List.cons_append, track, track, Option.bind_assoc]
    exact congrArg (Option.bind _) (funext fun part => ih part)

theorem track_append_some {part middle last : Option κ} {actions more : List (Action κ β ν)}
    (h : track part actions = some middle) (h' : track middle more = some last) :
    track part (actions ++ more) = some last := by
  rw [track_append, h, Option.bind_some, h']

theorem track_signs (part : Option κ) (actions : List (Action κ β ν)) :
    track part (signs actions) = track part actions := by
  induction actions generalizing part with
  | nil => rfl
  | cons action actions ih =>
    cases action with
    | advance item =>
      rw [signs, List.filter_cons_of_neg (by simp [Action.isAdvance]), track, trackOne_advance]
      exact ih part
    | _ =>
      rw [signs, List.filter_cons_of_pos (by simp [Action.isAdvance]), track, track]
      exact congrArg (Option.bind _) (funext fun part => ih part)

@[simp] theorem track_advances (part : Option κ) (items : List β) :
    track part (items.map (Action.advance : β → Action κ β ν)) = some part := by
  induction items with
  | nil => rfl
  | cons item items ih =>
    rw [List.map_cons, track, trackOne_advance]
    exact ih

namespace Pending

def part (pending : Pending κ β) : Option κ := pending.map Prod.fst

/-- The part as a mark. -/
def marks (pending : Pending κ β) : Marks κ β :=
  fun what => (pending.filter fun open_ => open_.1 = what).map Prod.snd

/-- The slice of what is open. -/
def report (pending : Pending κ β) (more : List β) : List (Call κ β ν) :=
  pending.toList.map fun open_ => .slice open_.1 (open_.2 ++ more)

def act (pending : Pending κ β) : Action κ β ν → Pending κ β × List (Call κ β ν)
  | .mark what => (pending.or (some (what, [])), [])
  | .slice _ => (none, pending.report [])
  | .sliceThrough _ item => (none, pending.report [item])
  | .notify notice => (pending, [.notify notice])
  | .advance item => (pending.map fun open_ => (open_.1, open_.2 ++ [item]), [])

def run (pending : Pending κ β) : List (Action κ β ν) → Pending κ β × List (Call κ β ν)
  | [] => (pending, [])
  | action :: actions =>
    (((pending.act action).1.run actions).1,
      (pending.act action).2 ++ ((pending.act action).1.run actions).2)

omit [DecidableEq κ] in
theorem run_append (pending : Pending κ β) (actions more : List (Action κ β ν)) :
    pending.run (actions ++ more) = (((pending.run actions).1.run more).1,
      (pending.run actions).2 ++ ((pending.run actions).1.run more).2) := by
  induction actions generalizing pending with
  | nil => rfl
  | cons action actions ih =>
    rw [List.cons_append, run, ih, run, List.append_assoc]

/-- All the reports, with the slice that is left at the end. -/
def closed (pending : Pending κ β) (actions : List (Action κ β ν)) : List (Call κ β ν) :=
  (pending.run actions).2 ++ (pending.run actions).1.report []

omit [DecidableEq κ] in
theorem closed_cons (pending : Pending κ β) (action : Action κ β ν) (actions : List (Action κ β ν)) :
    pending.closed (action :: actions) =
      (pending.act action).2 ++ (pending.act action).1.closed actions := by
  simp [closed, run, List.append_assoc]

theorem part_act {pending : Pending κ β} {action : Action κ β ν} {next : Option κ}
    (h : trackOne pending.part action = some next) : (pending.act action).1.part = next := by
  cases pending with
  | none => cases action <;> simp_all [part, act, trackOne]
  | some open_ =>
    obtain ⟨what, items⟩ := open_
    cases action <;> simp_all [part, act, trackOne]

@[simp] theorem marks_none (what : κ) : marks (none : Pending κ β) what = none := rfl

@[simp] theorem marks_some (open_ : κ × List β) (what : κ) :
    marks (some open_) what = if open_.1 = what then some open_.2 else none := by
  by_cases h : open_.1 = what
  · simp [marks, Option.filter, h]
  · simp [marks, Option.filter, h]

/-- A mark that is read is the one of the part that is open. -/
theorem eq_of_track {pending : Pending κ β} {what part : κ} {next : Option κ}
    (h : trackOne pending.part (.slice what : Action κ β ν) = some next)
    (hpart : pending.part = some part) : part = what := by
  rw [hpart] at h
  by_contra hne
  simp [trackOne, Ne.symm hne] at h

theorem update_none {pending : Pending κ β} {what : κ} {next : Option κ}
    (h : trackOne pending.part (.slice what : Action κ β ν) = some next) :
    Function.update pending.marks what none = marks none := by
  funext what'
  cases pending with
  | none => simp [Function.update_apply]
  | some open_ =>
    cases eq_of_track h rfl
    by_cases hw : what' = open_.1
    · simp [hw]
    · simp [hw, Ne.symm hw]

theorem report_marks {pending : Pending κ β} {what : κ} {next : Option κ}
    (h : trackOne pending.part (.slice what : Action κ β ν) = some next) (more : List β) :
    (pending.marks.report what more : List (Call κ β ν)) = pending.report more := by
  cases pending with
  | none => rfl
  | some open_ =>
    cases eq_of_track h rfl
    simp [Marks.report, report]

theorem update_mark {pending : Pending κ β} {what : κ} {next : Option κ}
    (h : trackOne pending.part (.mark what : Action κ β ν) = some next) :
    Function.update pending.marks what (some ((pending.marks what).getD [])) =
      marks (pending.or (some (what, []))) := by
  funext what'
  cases pending with
  | none =>
    by_cases hw : what' = what
    · simp [Function.update_apply, hw]
    · simp [hw, Ne.symm hw]
  | some open_ =>
    have hwhat : what = open_.1 := by
      by_contra hne
      simp [part, trackOne, hne] at h
    by_cases hw : what' = open_.1
    · simp [hwhat, hw]
    · simp [hwhat, hw, Ne.symm hw]

/-- Where one part is open at a time, the marks are no more than that. -/
theorem act_marks {pending : Pending κ β} {action : Action κ β ν} {next : Option κ}
    (h : trackOne pending.part action = some next) (calls : List (Call κ β ν)) :
    Slices.act (pending.marks, calls) action =
      ((pending.act action).1.marks, calls ++ (pending.act action).2) := by
  cases action with
  | mark what => simp [Slices.act, act, update_mark h]
  | slice what => simp only [Slices.act, act, update_none h, report_marks h]
  | sliceThrough what item =>
    have hslice : trackOne pending.part (.slice what : Action κ β ν) = some next := by
      cases hp : pending.part <;> simpa [hp, trackOne] using h
    simp only [Slices.act, act, update_none hslice, report_marks hslice]
  | notify notice => rfl
  | advance item =>
    simp only [Slices.act, act, List.append_nil, Prod.mk.injEq, and_true]
    funext what
    cases pending with
    | none => rfl
    | some open_ =>
      by_cases hw : open_.1 = what
      · simp [hw]
      · simp [hw]

theorem run_marks {pending : Pending κ β} {actions : List (Action κ β ν)} {last : Option κ}
    (h : track pending.part actions = some last) :
    pending.marks.run actions = ((pending.run actions).1.marks, (pending.run actions).2) ∧
      (pending.run actions).1.part = last := by
  have hfold : ∀ (pending : Pending κ β) (calls : List (Call κ β ν)),
      track pending.part actions = some last →
      actions.foldl Slices.act (pending.marks, calls) =
        ((pending.run actions).1.marks, calls ++ (pending.run actions).2) ∧
      (pending.run actions).1.part = last := by
    clear h
    induction actions with
    | nil =>
      intro pending calls h
      exact ⟨by simp [run], Option.some.inj h⟩
    | cons action actions ih =>
      intro pending calls h
      rw [track] at h
      obtain ⟨next, hnext, h⟩ := Option.bind_eq_some_iff.mp h
      have hpart := part_act hnext
      rw [← hpart] at h
      rw [List.foldl_cons, act_marks hnext]
      obtain ⟨hrun, hlast⟩ := ih (pending.act action).1 (calls ++ (pending.act action).2) h
      rw [hrun]
      exact ⟨by simp [run, List.append_assoc], hlast⟩
  simpa [Marks.run] using hfold pending [] h

/-! ## Marks that are set already -/

end Pending

/-- The actions do the same to whatever part is open. -/
def Alike (actions actions' : List (Action κ β ν)) : Prop :=
  items actions = items actions' ∧
    ∀ pending : Pending κ β, pending.run actions = pending.run actions'

namespace Alike

variable {actions actions' more more' : List (Action κ β ν)}

omit [DecidableEq κ]

theorem refl (actions : List (Action κ β ν)) : Alike actions actions := ⟨rfl, fun _ => rfl⟩

theorem symm (h : Alike actions actions') : Alike actions' actions :=
  ⟨h.1.symm, fun pending => (h.2 pending).symm⟩

theorem trans {actions'' : List (Action κ β ν)} (h : Alike actions actions')
    (h' : Alike actions' actions'') : Alike actions actions'' :=
  ⟨h.1.trans h'.1, fun pending => (h.2 pending).trans (h'.2 pending)⟩

theorem append (h : Alike actions actions') (h' : Alike more more') :
    Alike (actions ++ more) (actions' ++ more') := by
  constructor
  · rw [items_append, items_append, h.1, h'.1]
  · intro pending
    rw [Pending.run_append, Pending.run_append, h.2, h'.2]

/-- A mark is not set again. -/
theorem mark (what : κ) (item : β) (actions : List (Action κ β ν)) :
    Alike (.mark what :: .advance item :: actions)
      (.mark what :: .advance item :: .mark what :: actions) := by
  refine ⟨rfl, fun pending => ?_⟩
  cases pending <;> rfl

end Alike

namespace Pending

/-! ## The end of a buffer -/

/-- What a buffer has reported of a part may be a slice of its own. -/
theorem same_closed {what : κ} (items more : List β) {actions : List (Action κ β ν)}
    {last : Option κ} (h : track (some what) actions = some last) :
    Same (closed (some (what, items ++ more)) actions)
      (.slice what items :: closed (some (what, more)) actions) := by
  induction actions generalizing more with
  | nil =>
    simp only [closed, run, report, List.nil_append, Option.toList_some, List.map_cons, List.map_nil,
      List.append_nil]
    exact .slices what items more []
  | cons action actions ih =>
    rw [track] at h
    obtain ⟨next, hnext, h⟩ := Option.bind_eq_some_iff.mp h
    rw [closed_cons, closed_cons]
    cases action with
    | mark what' =>
      have hnext' : next = some what := by
        by_cases hw : what' = what
        · subst hw
          simpa [trackOne, eq_comm] using hnext
        · simp [trackOne, hw] at hnext
      subst hnext'
      exact ih _ h
    | slice what' =>
      simp only [act, report, Option.toList_some, List.map_cons, List.map_nil, List.append_nil]
      exact .slices what items more _
    | sliceThrough what' item =>
      simp only [act, report, Option.toList_some, List.map_cons, List.map_nil, List.append_assoc]
      exact .slices what items (more ++ [item]) _
    | notify notice => simp [trackOne] at hnext
    | advance item =>
      cases hnext
      simp only [act, Option.map_some, List.append_assoc, List.nil_append]
      exact ih _ h

/-- The next action sets the mark of the part again or reports the part. -/
def Resumes (what : κ) : List (Action κ β ν) → Prop
  | .mark what' :: _ => what' = what
  | .slice what' :: _ => what' = what
  | _ => False

omit [DecidableEq κ] in
theorem Resumes.append {what : κ} {actions : List (Action κ β ν)} (h : Resumes what actions)
    (more : List (Action κ β ν)) : Resumes what (actions ++ more) := by
  cases actions with
  | nil => exact h.elim
  | cons action actions => cases action <;> exact h

/-- The part that is open is reported at the end of the buffer, and the next buffer begins with its
mark set again, or with none where the reader sets it itself. -/
theorem same_resume {pending again : Pending κ β} {actions : List (Action κ β ν)} {last : Option κ}
    (htrack : track pending.part actions = some last)
    (hagain : again = pending.map (fun open_ => (open_.1, [])) ∨
      again = none ∧ ∀ what, pending.part = some what → Resumes what actions) :
    Same (pending.closed actions) (pending.report [] ++ again.closed actions) := by
  cases pending with
  | none =>
    have hnone : again = none := by
      rcases hagain with h | ⟨h, -⟩
      · exact h
      · exact h
    subst hnone
    exact .refl _
  | some open_ =>
    obtain ⟨what, items⟩ := open_
    have hsame := same_closed items [] htrack
    rw [List.append_nil] at hsame
    have hreport : (report (some (what, items)) [] : List (Call κ β ν)) = [.slice what items] := by
      simp [report]
    rw [hreport]
    rcases hagain with h | ⟨h, hresumes⟩
    · subst h
      exact hsame
    · subst h
      have hresumes := hresumes what rfl
      match actions, hresumes with
      | .mark what' :: actions, hw =>
        cases hw
        rw [closed_cons] at hsame ⊢
        exact hsame
      | .slice what' :: actions, hw =>
        rw [closed_cons, closed_cons]
        simp only [act, hreport]
        exact .refl _

end Pending
end Slices
