import Mathlib.Data.List.DropRight

namespace Reloadium.Glob

/-!
# Glob patterns — the parts of a path

`iexplodePath` yields the parts of a path by splitting off what follows its last separator, as
`os.path.split` does on a POSIX system, where the only separator is `/` and a run of separators
counts as one.

* `iexplodePath_append` — the last part is split off;
* `iexplodePath_intercalate` — the parts of a path below a directory: a separator that follows
  another yields no empty part, one at the end does.
-/

/-- The characters of a Python string. -/
abbrev Str := List Char

variable {path head tail : Str} {n : Nat}

/-- `posixpath.split`: what precedes the last separator, without the separators at its end when it
has other letters, and what follows it. -/
def split (path : Str) : Str × Str :=
  let head := path.rdropWhile (· != '/')
  let tail := path.rtakeWhile (· != '/')
  if head.all (· == '/') then (head, tail) else (head.rdropWhile (· == '/'), tail)

theorem fst_split_le (path : Str) : (split path).1 <+: path.rdropWhile (· != '/') := by
  rw [split]
  split
  · exact List.prefix_rfl
  · exact List.rdropWhile_prefix _ _

theorem split_snd (path : Str) : (split path).2 = path.rtakeWhile (· != '/') := by
  rw [split]
  split
  · rfl
  · rfl

/-- What is left gets shorter, unless all of it is separators. -/
theorem split_fst_length_lt
    (h : ¬ ((split path).1 = [] ∨ (split path).2 = [] ∧ (split path).1 = path)) :
    (split path).1.length < path.length := by
  have hle := (fst_split_le path).length_le
  have hadd : (path.rdropWhile (· != '/') ++ path.rtakeWhile (· != '/')).length = path.length :=
    congrArg List.length List.rdropWhile_append_rtakeWhile
  rw [List.length_append, ← split_snd] at hadd
  by_contra hge
  have htail : (split path).2 = [] := List.eq_nil_of_length_eq_zero (by omega)
  have hprefix := (fst_split_le path).trans (List.rdropWhile_prefix _ _)
  have hhead : (split path).1 = path := hprefix.eq_of_length_le (by omega)
  exact h (Or.inr ⟨htail, hhead⟩)

/-- The parts of a path, from the first to the last. -/
def iexplodePath (path : Str) : List Str :=
  if _ : (split path).1 = [] ∨ (split path).2 = [] ∧ (split path).1 = path then
    (if (split path).1 ≠ [] then [(split path).1] else []) ++
      (if (split path).2 ≠ [] ∨ (split path).1 = [] then [(split path).2] else [])
  else iexplodePath (split path).1 ++ [(split path).2]
termination_by path.length
decreasing_by exact split_fst_length_lt ‹_›

/-! ### Splitting off the last part -/

theorem bne_of_notMem (htail : '/' ∉ tail) : ∀ c ∈ tail, (c != '/') = true := by
  intro c hc
  rw [bne_iff_ne]
  exact fun heq => htail (heq ▸ hc)

/-- Only the separators before the last part are dropped. -/
theorem split_append (hhead : head ≠ []) (hlast : head.getLast hhead ≠ '/') (htail : '/' ∉ tail)
    (n : Nat) : split (head ++ List.replicate (n + 1) '/' ++ tail) = (head, tail) := by
  have hall := bne_of_notMem htail
  have hdrop : (head ++ List.replicate (n + 1) '/' ++ tail).rdropWhile (· != '/') =
      head ++ List.replicate (n + 1) '/' := by
    rw [List.rdropWhile, List.reverse_append, List.dropWhile_append_of_pos (by simpa using hall),
      List.replicate_succ', ← List.append_assoc, List.reverse_concat,
      List.dropWhile_cons_of_neg (by decide), ← List.reverse_concat, List.reverse_reverse]
  have htake : (head ++ List.replicate (n + 1) '/' ++ tail).rtakeWhile (· != '/') = tail := by
    rw [List.rtakeWhile, List.reverse_append, List.takeWhile_append_of_pos (by simpa using hall),
      List.replicate_succ', ← List.append_assoc, List.reverse_concat,
      List.takeWhile_cons_of_neg (by decide), List.append_nil, List.reverse_reverse]
  have hstrip : (head ++ List.replicate (n + 1) '/').rdropWhile (· == '/') = head := by
    rw [List.rdropWhile, List.reverse_append, List.dropWhile_append_of_pos (by simp)]
    exact List.rdropWhile_eq_self_iff.mpr fun _ => by simpa using hlast
  have hnotall : ¬ (head ++ List.replicate (n + 1) '/').all (· == '/') = true := by
    intro h
    have hmem : head.getLast hhead ∈ head ++ List.replicate (n + 1) '/' :=
      List.mem_append_left _ (List.getLast_mem hhead)
    exact hlast (beq_iff_eq.mp (List.all_eq_true.mp h _ hmem))
  rw [split, hdrop, htake, hstrip, if_neg hnotall]

/-- The last part of a path is split off, with the separators before it. -/
theorem iexplodePath_append (hhead : head ≠ []) (hlast : head.getLast hhead ≠ '/')
    (htail : '/' ∉ tail) (n : Nat) :
    iexplodePath (head ++ List.replicate (n + 1) '/' ++ tail) = iexplodePath head ++ [tail] := by
  have hsplit := split_append hhead hlast htail n
  have hne : head ≠ head ++ List.replicate (n + 1) '/' ++ tail := by
    intro h
    have hlen := congrArg List.length h
    rw [List.length_append, List.length_append, List.length_replicate] at hlen
    omega
  have hrec : ¬ ((split (head ++ List.replicate (n + 1) '/' ++ tail)).1 = [] ∨
      (split (head ++ List.replicate (n + 1) '/' ++ tail)).2 = [] ∧
        (split (head ++ List.replicate (n + 1) '/' ++ tail)).1 =
          head ++ List.replicate (n + 1) '/' ++ tail) := by
    rw [hsplit]
    exact not_or.mpr ⟨hhead, fun h => hne h.2⟩
  rw [iexplodePath, dif_neg hrec, hsplit]

/-- A path without separators is its only part. -/
theorem iexplodePath_of_notMem (h : '/' ∉ path) : iexplodePath path = [path] := by
  have hall := bne_of_notMem h
  have hdrop : path.rdropWhile (· != '/') = [] := List.rdropWhile_eq_nil_iff.mpr hall
  have hfst : (split path).1 = [] := List.prefix_nil.mp (hdrop ▸ fst_split_le path)
  have hsnd : (split path).2 = path := by
    rw [split_snd]
    exact List.rtakeWhile_eq_self_iff.mpr hall
  rw [iexplodePath, dif_pos (Or.inl hfst), hfst, hsnd, if_neg (not_not.mpr rfl),
    if_pos (Or.inr rfl), List.nil_append]

/-! ### A path below a directory -/

/-- The parts between separators that are no separators themselves, with the last one. -/
def nonempty : List Str → List Str
  | [] => []
  | [part] => [part]
  | part :: parts => if part = [] then nonempty parts else part :: nonempty parts

theorem iexplodePath_intercalate {parts : List Str} (hhead : head ≠ [])
    (hlast : head.getLast hhead ≠ '/') (hne : parts ≠ []) (hparts : ∀ part ∈ parts, '/' ∉ part)
    (n : Nat) :
    iexplodePath (head ++ List.replicate (n + 1) '/' ++ ['/'].intercalate parts) =
      iexplodePath head ++ nonempty parts := by
  induction parts generalizing head n with
  | nil => exact absurd rfl hne
  | cons part parts ih =>
    obtain ⟨hpart, hrest⟩ := List.forall_mem_cons.mp hparts
    cases parts with
    | nil =>
      rw [List.intercalate_singleton, iexplodePath_append hhead hlast hpart]
      rfl
    | cons next parts =>
      rw [List.intercalate_cons_cons]
      by_cases hempty : part = []
      · -- one more separator
        rw [hempty, List.nil_append, ← List.append_assoc, List.append_assoc head,
          ← List.replicate_succ', ih hhead hlast (List.cons_ne_nil _ _) hrest (n + 1)]
        rfl
      · have hhead' : head ++ List.replicate (n + 1) '/' ++ part ≠ [] :=
          List.append_ne_nil_of_right_ne_nil _ hempty
        have hlast' : (head ++ List.replicate (n + 1) '/' ++ part).getLast hhead' ≠ '/' := by
          rw [List.getLast_append_of_ne_nil _ hempty]
          exact fun h => hpart (h ▸ List.getLast_mem hempty)
        have hnext := ih hhead' hlast' (List.cons_ne_nil _ _) hrest 0
        rw [iexplodePath_append hhead hlast hpart, List.append_assoc (iexplodePath head)] at hnext
        rw [List.append_assoc part, ← List.append_assoc _ part, nonempty, if_neg hempty]
        · rw [← List.append_assoc]
          exact hnext
        · exact fun h => nomatch h

end Reloadium.Glob
