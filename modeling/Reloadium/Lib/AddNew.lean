import Mathlib.Data.List.Nodup

namespace Reloadium.Lib

/-!
# Library — adding what is not there yet

`addNew` puts an element behind a list that does not have it; `addAllNew` adds the elements that a
list of names is looked up as, and leaves out the names of none.

`map_addAllNew_eq_iff` says when the names of the list give back the names it was made from.
-/

variable {α β : Type*} [DecidableEq α]

/-- The list with the element behind it, unless it has the element. -/
def addNew (l : List α) (a : α) : List α := if a ∈ l then l else l ++ [a]

/-- The list with what the names are looked up as. -/
def addAllNew (find : β → Option α) (l : List α) : List β → List α
  | [] => l
  | b :: bs => addAllNew find ((find b).elim l (addNew l)) bs

theorem prefix_addNew (l : List α) (a : α) : l <+: addNew l a := by
  rw [addNew]
  split
  · exact List.prefix_rfl
  · exact List.prefix_append l [a]

theorem length_addNew_le (l : List α) (a : α) : (addNew l a).length ≤ l.length + 1 := by
  rw [addNew]
  split
  · exact Nat.le_succ _
  · exact Nat.le_of_eq List.length_append

variable {find : β → Option α} {name : α → β} {l : List α}

theorem prefix_addAllNew (l : List α) (bs : List β) : l <+: addAllNew find l bs := by
  induction bs generalizing l with
  | nil => exact List.prefix_rfl
  | cons b bs ih =>
    refine List.IsPrefix.trans ?_ (ih _)
    cases find b with
    | none => exact List.prefix_rfl
    | some a => exact prefix_addNew l a

theorem length_addAllNew_le (l : List α) (bs : List β) :
    (addAllNew find l bs).length ≤ l.length + bs.length := by
  induction bs generalizing l with
  | nil => exact Nat.le_refl _
  | cons b bs ih =>
    have hrest := ih ((find b).elim l (addNew l))
    have hstep : ((find b).elim l (addNew l)).length ≤ l.length + 1 := by
      cases find b with
      | none => exact Nat.le_succ _
      | some a => exact length_addNew_le l a
    rw [addAllNew, List.length_cons]
    omega

/-- A name that adds nothing is missing at the end. -/
theorem map_addAllNew_ne_of_length {l : List α} {b : β} {bs : List β} :
    (addAllNew find l bs).map name ≠ l.map name ++ b :: bs := by
  intro heq
  have hlen := congrArg List.length heq
  have hle := @length_addAllNew_le _ _ _ find l bs
  rw [List.length_map, List.length_append, List.length_map, List.length_cons] at hlen
  omega

/-- **Looking names up and naming what was found** gives the names back just if each name is looked
    up as something of that name, no name comes twice and none is looked up as something the list
    had. -/
theorem map_addAllNew_eq_iff (l : List α) (bs : List β) :
    (addAllNew find l bs).map name = l.map name ++ bs ↔
      bs.Nodup ∧ ∀ b ∈ bs, ∃ a, find b = some a ∧ name a = b ∧ a ∉ l := by
  induction bs generalizing l with
  | nil => simp [addAllNew]
  | cons b bs ih =>
    rw [addAllNew, List.forall_mem_cons]
    cases hfind : find b with
    | none =>
      refine iff_of_false map_addAllNew_ne_of_length ?_
      rintro ⟨-, ⟨a, ha, -⟩, -⟩
      cases ha
    | some a =>
      rw [Option.elim_some, addNew]
      by_cases hmem : a ∈ l
      · rw [if_pos hmem]
        refine iff_of_false map_addAllNew_ne_of_length ?_
        rintro ⟨-, ⟨a', ha', -, hnew⟩, -⟩
        exact hnew (Option.some.inj ha' ▸ hmem)
      rw [if_neg hmem]
      by_cases hname : name a = b
      · have hsplit : l.map name ++ b :: bs = (l ++ [a]).map name ++ bs := by
          rw [List.map_append, List.map_singleton, hname, List.append_assoc,
            List.singleton_append]
        rw [hsplit, ih (l ++ [a]), List.nodup_cons]
        constructor
        · rintro ⟨hnodup, hall⟩
          refine ⟨⟨fun hb => ?_, hnodup⟩, ⟨a, rfl, hname, hmem⟩, fun b' hb' => ?_⟩
          · -- the name would be looked up as what it has added
            obtain ⟨a', ha', -, hnew⟩ := hall b hb
            rw [hfind, Option.some.injEq] at ha'
            exact hnew (List.mem_append_right l (ha' ▸ List.mem_cons_self))
          · obtain ⟨a', ha', hname', hnew⟩ := hall b' hb'
            exact ⟨a', ha', hname', fun h => hnew (List.mem_append_left _ h)⟩
        · rintro ⟨⟨hb, hnodup⟩, -, hall⟩
          refine ⟨hnodup, fun b' hb' => ?_⟩
          obtain ⟨a', ha', hname', hnew⟩ := hall b' hb'
          refine ⟨a', ha', hname', fun h => ?_⟩
          rcases List.mem_append.mp h with hl | ha
          · exact hnew hl
          · rw [List.mem_singleton.mp ha, hname] at hname'
            exact hb (hname' ▸ hb')
      · refine iff_of_false (fun heq => ?_) ?_
        · -- the element stands behind the list, under another name
          obtain ⟨rest, hrest⟩ := @prefix_addAllNew _ _ _ find (l ++ [a]) bs
          rw [← hrest, List.map_append, List.map_append, List.append_assoc,
            List.append_cancel_left_eq] at heq
          exact hname (List.cons.inj heq).1
        · rintro ⟨-, ⟨a', ha', hname', -⟩, -⟩
          exact hname (Option.some.inj ha' ▸ hname')

end Reloadium.Lib
