import Mathlib.Data.List.Basic

namespace Reloadium.Lib

/-!
# Library — regular expressions

Regular expressions with assertions about the text around the match: what stands before it, its
beginning and its end.  `Derives r b u a` says that `r` matches `u` between `b` and `a`, and
`run r b s` lists what a backtracking matcher finds in `s` after `b`: the matched text with what
is left, the choice it tries first at the head.

* `mem_run_iff` — the matcher finds what is derived, and nothing else;
* `derives_seq_iff`, `derives_alt_iff`, … — the matches of each form;
* `derives_many_iff` — a run of letters of one class;
* `Plain.derives_iff` — without assertions, the text around a match does not matter.
-/

/-- Regular expressions over the letters `α`. -/
inductive Regex (α : Type*)
  | empty
  | letter (p : α → Bool)
  | seq (r s : Regex α)
  | alt (r s : Regex α)
  | star (r : Regex α)
  | behind (r : Regex α)
  | start
  | stop

namespace Regex

variable {α : Type*}

/-- `r?` -/
def opt (r : Regex α) : Regex α := alt r empty

/-- `r+` -/
def plus (r : Regex α) : Regex α := seq r (star r)

/-- A run of letters of one class. -/
def many (p : α → Bool) : Regex α := star (letter p)

/-- The matches of a regular expression, between the text before and the text after. -/
inductive Derives : Regex α → List α → List α → List α → Prop
  | empty {b a} : Derives empty b [] a
  | letter {p : α → Bool} {b c a} (h : p c = true) : Derives (letter p) b [c] a
  | seq {r s b u v a} (hr : Derives r b u (v ++ a)) (hs : Derives s (b ++ u) v a) :
      Derives (seq r s) b (u ++ v) a
  | left {r s b u a} (h : Derives r b u a) : Derives (alt r s) b u a
  | right {r s b u a} (h : Derives s b u a) : Derives (alt r s) b u a
  | done {r b a} : Derives (star r) b [] a
  | more {r b u v a} (hne : u ≠ []) (hr : Derives r b u (v ++ a))
      (hs : Derives (star r) (b ++ u) v a) : Derives (star r) b (u ++ v) a
  | behind {r b u a} (h : Derives r b u a) : Derives (behind r) (b ++ u) [] a
  | start {a} : Derives start [] [] a
  | stop {b} : Derives stop b [] []

variable {p : α → Bool} {r s : Regex α} {b u v a t : List α} {n : Nat}

/-! ### The matches of each form -/

@[simp] theorem derives_empty_iff : Derives empty b u a ↔ u = [] :=
  ⟨fun h => by cases h; rfl, fun h => h ▸ Derives.empty⟩

@[simp] theorem derives_letter_iff : Derives (letter p) b u a ↔ ∃ c, p c = true ∧ u = [c] := by
  refine ⟨fun h => ?_, ?_⟩
  · cases h with
    | letter hp => exact ⟨_, hp, rfl⟩
  · rintro ⟨c, hp, rfl⟩
    exact Derives.letter hp

theorem derives_seq_iff :
    Derives (seq r s) b t a ↔ ∃ u v, t = u ++ v ∧ Derives r b u (v ++ a) ∧ Derives s (b ++ u) v a := by
  refine ⟨fun h => ?_, ?_⟩
  · cases h with
    | seq hr hs => exact ⟨_, _, rfl, hr, hs⟩
  · rintro ⟨u, v, rfl, hr, hs⟩
    exact Derives.seq hr hs

@[simp] theorem derives_alt_iff : Derives (alt r s) b u a ↔ Derives r b u a ∨ Derives s b u a := by
  refine ⟨fun h => ?_, ?_⟩
  · cases h with
    | left hr => exact Or.inl hr
    | right hs => exact Or.inr hs
  · rintro (hr | hs)
    · exact Derives.left hr
    · exact Derives.right hs

theorem derives_opt_iff : Derives (opt r) b u a ↔ Derives r b u a ∨ u = [] := by
  rw [opt, derives_alt_iff, derives_empty_iff]

theorem derives_star_iff :
    Derives (star r) b t a ↔ t = [] ∨
      ∃ u v, t = u ++ v ∧ u ≠ [] ∧ Derives r b u (v ++ a) ∧ Derives (star r) (b ++ u) v a := by
  refine ⟨fun h => ?_, ?_⟩
  · cases h with
    | done => exact Or.inl rfl
    | more hne hr hs => exact Or.inr ⟨_, _, rfl, hne, hr, hs⟩
  · rintro (rfl | ⟨u, v, rfl, hne, hr, hs⟩)
    · exact Derives.done
    · exact Derives.more hne hr hs

theorem derives_behind_iff :
    Derives (behind r) b t a ↔ t = [] ∧ ∃ pre u, b = pre ++ u ∧ Derives r pre u a := by
  refine ⟨fun h => ?_, ?_⟩
  · cases h with
    | behind hr => exact ⟨rfl, _, _, rfl, hr⟩
  · rintro ⟨rfl, pre, u, rfl, hr⟩
    exact Derives.behind hr

@[simp] theorem derives_start_iff : Derives start b t a ↔ t = [] ∧ b = [] := by
  refine ⟨fun h => ?_, ?_⟩
  · cases h
    exact ⟨rfl, rfl⟩
  · rintro ⟨rfl, rfl⟩
    exact Derives.start

@[simp] theorem derives_stop_iff : Derives stop b t a ↔ t = [] ∧ a = [] := by
  refine ⟨fun h => ?_, ?_⟩
  · cases h
    exact ⟨rfl, rfl⟩
  · rintro ⟨rfl, rfl⟩
    exact Derives.stop

/-- A run of letters of one class. -/
theorem derives_many_iff : Derives (many p) b u a ↔ ∀ c ∈ u, p c = true := by
  refine ⟨fun h => ?_, fun h => ?_⟩
  · rw [many] at h
    generalize hr : star (letter p) = r at h
    induction h with
    | done => exact fun c hc => absurd hc List.not_mem_nil
    | more hne hletter hmore _ ih =>
      obtain rfl := star.inj hr
      obtain ⟨c, hp, rfl⟩ := derives_letter_iff.mp hletter
      exact List.forall_mem_cons.mpr ⟨hp, ih rfl⟩
    | _ => exact nomatch hr
  · induction u generalizing b with
    | nil => exact Derives.done
    | cons c u ih =>
      obtain ⟨hc, hu⟩ := List.forall_mem_cons.mp h
      exact Derives.more (u := [c]) (List.cons_ne_nil c []) (Derives.letter hc) (ih hu)

/-! ### The matcher -/

/-- Matches of `step` one after the other, as long as each takes something. -/
def iterate (step : List α → List α → List (List α × List α)) :
    Nat → List α → List α → List (List α × List α)
  | 0, _, s => [([], s)]
  | n + 1, b, s =>
    ((step b s).filter (!·.1.isEmpty)).flatMap
      (fun (u, s') => (iterate step n (b ++ u) s').map fun (v, t) => (u ++ v, t)) ++ [([], s)]

/-- What a backtracking matcher finds, in the order of its choices. -/
def run : Regex α → List α → List α → List (List α × List α)
  | empty, _, s => [([], s)]
  | letter _, _, [] => []
  | letter p, _, c :: s => if p c then [([c], s)] else []
  | seq r r', b, s =>
    (run r b s).flatMap fun (u, s') => (run r' (b ++ u) s').map fun (v, t) => (u ++ v, t)
  | alt r r', b, s => run r b s ++ run r' b s
  | star r, b, s => iterate (run r) s.length b s
  | behind r, b, s =>
    -- the text before is tried from each of its places, and the match has to end here
    if (List.range (b.length + 1)).any fun k =>
        (run r (b.take k) (b.drop k ++ s)).any fun (u, _) => u.length == b.length - k
    then [([], s)] else []
  | start, b, s => if b.isEmpty then [([], s)] else []
  | stop, _, s => if s.isEmpty then [([], s)] else []

theorem mem_iterate_iff {step : List α → List α → List (List α × List α)}
    (hstep : ∀ b t u a, (u, a) ∈ step b t ↔ t = u ++ a ∧ Derives r b u a)
    (hn : t.length ≤ n) :
    (u, a) ∈ iterate step n b t ↔ t = u ++ a ∧ Derives (star r) b u a := by
  induction n generalizing b t u with
  | zero =>
    obtain rfl := List.eq_nil_of_length_eq_zero (Nat.le_zero.mp hn)
    rw [iterate, List.mem_singleton, Prod.mk.injEq]
    refine ⟨?_, fun ⟨heq, _⟩ => ?_⟩
    · rintro ⟨rfl, rfl⟩
      exact ⟨rfl, Derives.done⟩
    · exact List.append_eq_nil_iff.mp heq.symm
  | succ n ih =>
    rw [iterate, List.mem_append, List.mem_singleton, Prod.mk.injEq, derives_star_iff]
    simp only [List.mem_flatMap, List.mem_filter, List.mem_map, Prod.exists, Prod.mk.injEq,
      Bool.not_eq_true', List.isEmpty_eq_false_iff]
    refine ⟨?_, ?_⟩
    · rintro (⟨u', s', ⟨hmem, hne⟩, v, t', hv, rfl, rfl⟩ | ⟨rfl, rfl⟩)
      · obtain ⟨rfl, hr⟩ := (hstep _ _ _ _).mp hmem
        have hpos := List.length_pos_of_ne_nil hne
        have hlen : s'.length ≤ n := by
          rw [List.length_append] at hn
          omega
        obtain ⟨rfl, hs⟩ := (ih hlen).mp hv
        exact ⟨(List.append_assoc _ _ _).symm, Or.inr ⟨u', v, rfl, hne, hr, hs⟩⟩
      · exact ⟨rfl, Or.inl rfl⟩
    · rintro ⟨rfl, rfl | ⟨u', v, rfl, hne, hr, hs⟩⟩
      · exact Or.inr ⟨rfl, rfl⟩
      · have hpos := List.length_pos_of_ne_nil hne
        have hlen : (v ++ a).length ≤ n := by
          rw [List.append_assoc, List.length_append] at hn
          omega
        exact Or.inl ⟨u', v ++ a, ⟨(hstep _ _ _ _).mpr ⟨List.append_assoc _ _ _, hr⟩, hne⟩, v, a,
          (ih hlen).mpr ⟨rfl, hs⟩, rfl, rfl⟩

/-- The matcher looks behind for a match that ends where it stands. -/
theorem behind_iff (hrun : ∀ b t u a, (u, a) ∈ run r b t ↔ t = u ++ a ∧ Derives r b u a) :
    ((List.range (b.length + 1)).any fun k =>
      (run r (b.take k) (b.drop k ++ t)).any fun (u, _) => u.length == b.length - k) = true ↔
      ∃ pre u, b = pre ++ u ∧ Derives r pre u t := by
  simp only [List.any_eq_true, List.mem_range, Prod.exists, beq_iff_eq]
  refine ⟨?_, ?_⟩
  · rintro ⟨k, hk, u, a, hmem, hlen⟩
    obtain ⟨heq, hr⟩ := (hrun _ _ _ _).mp hmem
    have hdrop : (b.drop k).length = u.length := by
      rw [List.length_drop, hlen]
    obtain ⟨rfl, rfl⟩ := List.append_inj heq hdrop
    exact ⟨b.take k, b.drop k, (List.take_append_drop k b).symm, hr⟩
  · rintro ⟨pre, u, rfl, hr⟩
    refine ⟨pre.length, by rw [List.length_append]; omega, u, t, ?_, ?_⟩
    · rw [List.take_left, List.drop_left]
      exact (hrun _ _ _ _).mpr ⟨rfl, hr⟩
    · rw [List.length_append, Nat.add_sub_cancel_left]

/-- **The matcher is right.** -/
theorem mem_run_iff : (u, a) ∈ run r b t ↔ t = u ++ a ∧ Derives r b u a := by
  induction r generalizing b t u a with
  | empty =>
    rw [run, List.mem_singleton, Prod.mk.injEq, derives_empty_iff]
    refine ⟨?_, ?_⟩
    · rintro ⟨rfl, rfl⟩
      exact ⟨rfl, rfl⟩
    · rintro ⟨rfl, rfl⟩
      exact ⟨rfl, rfl⟩
  | letter p =>
    rw [derives_letter_iff]
    cases t with
    | nil =>
      refine ⟨fun h => absurd h List.not_mem_nil, ?_⟩
      rintro ⟨heq, c, _, rfl⟩
      exact nomatch heq
    | cons d t =>
      rw [run]
      split
      case isTrue hp =>
        rw [List.mem_singleton, Prod.mk.injEq]
        refine ⟨?_, ?_⟩
        · rintro ⟨rfl, rfl⟩
          exact ⟨rfl, d, hp, rfl⟩
        · rintro ⟨heq, c, _, rfl⟩
          obtain ⟨rfl, rfl⟩ := List.cons.inj heq
          exact ⟨rfl, rfl⟩
      case isFalse hp =>
        refine ⟨fun h => absurd h List.not_mem_nil, ?_⟩
        rintro ⟨heq, c, hc, rfl⟩
        exact absurd ((List.cons.inj heq).1 ▸ hc) hp
  | seq r r' ihr ihs =>
    rw [run, derives_seq_iff]
    simp only [List.mem_flatMap, List.mem_map, Prod.exists, Prod.mk.injEq]
    refine ⟨?_, ?_⟩
    · rintro ⟨u', s', hu, v, t', hv, rfl, rfl⟩
      obtain ⟨rfl, hr⟩ := ihr.mp hu
      obtain ⟨rfl, hs⟩ := ihs.mp hv
      exact ⟨(List.append_assoc _ _ _).symm, u', v, rfl, hr, hs⟩
    · rintro ⟨rfl, u', v, rfl, hr, hs⟩
      exact ⟨u', v ++ a, ihr.mpr ⟨List.append_assoc _ _ _, hr⟩, v, a, ihs.mpr ⟨rfl, hs⟩, rfl, rfl⟩
  | alt r r' ihr ihs =>
    rw [run, List.mem_append, ihr, ihs, derives_alt_iff, and_or_left]
  | star r ih => exact mem_iterate_iff (fun b t u a => ih) (Nat.le_refl _)
  | behind r ih =>
    rw [run, derives_behind_iff]
    split
    case isTrue h =>
      rw [List.mem_singleton, Prod.mk.injEq]
      have hbehind := (behind_iff fun b t u a => ih).mp h
      refine ⟨?_, ?_⟩
      · rintro ⟨rfl, rfl⟩
        exact ⟨rfl, rfl, hbehind⟩
      · rintro ⟨rfl, rfl, _⟩
        exact ⟨rfl, rfl⟩
    case isFalse h =>
      refine ⟨fun hmem => absurd hmem List.not_mem_nil, ?_⟩
      rintro ⟨rfl, rfl, hbehind⟩
      exact absurd ((behind_iff fun b t u a => ih).mpr hbehind) h
  | start =>
    rw [run, derives_start_iff]
    cases b with
    | nil =>
      rw [List.isEmpty_nil, if_pos rfl, List.mem_singleton, Prod.mk.injEq]
      refine ⟨?_, ?_⟩
      · rintro ⟨rfl, rfl⟩
        exact ⟨rfl, rfl, rfl⟩
      · rintro ⟨rfl, rfl, _⟩
        exact ⟨rfl, rfl⟩
    | cons c b =>
      refine ⟨fun hmem => absurd hmem List.not_mem_nil, ?_⟩
      rintro ⟨_, _, hb⟩
      exact nomatch hb
  | stop =>
    rw [run, derives_stop_iff]
    cases t with
    | nil =>
      rw [List.isEmpty_nil, if_pos rfl, List.mem_singleton, Prod.mk.injEq]
      refine ⟨?_, ?_⟩
      · rintro ⟨rfl, rfl⟩
        exact ⟨rfl, rfl, rfl⟩
      · rintro ⟨_, rfl, rfl⟩
        exact ⟨rfl, rfl⟩
    | cons c t =>
      refine ⟨fun hmem => absurd hmem List.not_mem_nil, ?_⟩
      rintro ⟨heq, rfl, rfl⟩
      exact nomatch heq

/-- Whether a match begins where the text does. -/
def isMatch (r : Regex α) (t : List α) : Bool := !(run r [] t).isEmpty

theorem isMatch_iff : r.isMatch t = true ↔ ∃ u a, t = u ++ a ∧ Derives r [] u a := by
  rw [isMatch, Bool.not_eq_true', List.isEmpty_eq_false_iff_exists_mem, Prod.exists]
  simp only [mem_run_iff]

/-! ### Expressions without assertions -/

/-- `r` taken `n` times. -/
def copies (r : Regex α) : Nat → Regex α
  | 0 => empty
  | n + 1 => seq r (copies r n)

/-- `r` taken up to `n` times, more often first. -/
def atMost (r : Regex α) : Nat → Regex α
  | 0 => empty
  | n + 1 => opt (seq r (atMost r n))

/-- `r{n,m}` -/
def between (r : Regex α) (n m : Nat) : Regex α := seq (copies r n) (atMost r (m - n))

/-- No assertion occurs. -/
def Plain : Regex α → Prop
  | empty => True
  | letter _ => True
  | seq r s => r.Plain ∧ s.Plain
  | alt r s => r.Plain ∧ s.Plain
  | star r => r.Plain
  | _ => False

/-- Whether a class allows the letter. -/
def Uses (c : α) : Regex α → Prop
  | letter p => p c = true
  | seq r s => r.Uses c ∨ s.Uses c
  | alt r s => r.Uses c ∨ s.Uses c
  | star r => r.Uses c
  | _ => False

instance decidableUses (c : α) : (r : Regex α) → Decidable (r.Uses c)
  | letter p => inferInstanceAs (Decidable (p c = true))
  | seq r s =>
    have := decidableUses c r
    have := decidableUses c s
    inferInstanceAs (Decidable (r.Uses c ∨ s.Uses c))
  | alt r s =>
    have := decidableUses c r
    have := decidableUses c s
    inferInstanceAs (Decidable (r.Uses c ∨ s.Uses c))
  | star r => decidableUses c r
  | empty => inferInstanceAs (Decidable False)
  | behind _ => inferInstanceAs (Decidable False)
  | start => inferInstanceAs (Decidable False)
  | stop => inferInstanceAs (Decidable False)

variable {b' a' : List α} {c : α}

/-- A match has the letters of the expression. -/
theorem Derives.uses (h : Derives r b u a) (hc : c ∈ u) : r.Uses c := by
  induction h with
  | letter hp =>
    obtain rfl := List.mem_singleton.mp hc
    exact hp
  | seq _ _ ihr ihs => exact (List.mem_append.mp hc).imp ihr ihs
  | left _ ih => exact Or.inl (ih hc)
  | right _ ih => exact Or.inr (ih hc)
  | more _ _ _ ihr ihs => exact (List.mem_append.mp hc).elim ihr ihs
  | _ => exact absurd hc List.not_mem_nil

theorem Plain.derives (hr : r.Plain) (h : Derives r b u a) (b' a' : List α) :
    Derives r b' u a' := by
  induction h generalizing b' a' with
  | empty => exact Derives.empty
  | letter hp => exact Derives.letter hp
  | seq _ _ ihr ihs => exact Derives.seq (ihr hr.1 _ _) (ihs hr.2 _ _)
  | left _ ih => exact Derives.left (ih hr.1 _ _)
  | right _ ih => exact Derives.right (ih hr.2 _ _)
  | done => exact Derives.done
  | more hne _ _ ihr ihs => exact Derives.more hne (ihr hr _ _) (ihs hr _ _)
  | _ => exact hr.elim

/-- Without assertions, the text around a match does not matter. -/
theorem Plain.derives_iff (hr : r.Plain) : Derives r b u a ↔ Derives r b' u a' :=
  ⟨fun h => hr.derives h b' a', fun h => hr.derives h b a⟩

end Regex

end Reloadium.Lib
