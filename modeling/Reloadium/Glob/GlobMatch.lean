import Reloadium.Lib.Infixes
import Reloadium.Glob.Translation

namespace Reloadium.Glob

open Lib Lib.RegexText

/-!
# Glob patterns — matching a path

`globMatch` puts `start/` before the path and before each pattern and asks the patterns one after
the other.  `Matches` says what a pattern means for the parts of a path: each part but `**` is
matched by one part, `**` by zero or more, and by at least one at the end.

* `means_intercalate_iff` — the meaning for the text of a path is the one for its parts, when no
  class of the pattern lets a separator through;
* `globMatch_iff` — **a path matches when one of the patterns does**, part by part.
-/

/-! ### The code -/

/-- `_fix_path_for_globmatch` -/
def fixPathForGlobmatch (path : Str) : Str := "start/".toList ++ path.dropWhile (· == '/')

/-- The first matcher that accepts the path; the error of a pattern before it. -/
def matchAny (path : Str) (subentriesMatch : Bool) : List Str → Option Bool
  | [] => some false
  | g :: globs =>
    (compilePattern g subentriesMatch).bind fun matcher =>
      if matcher path then some true else matchAny path subentriesMatch globs

/-- `glob_match` -/
def globMatch (path : Str) (globs : List Str) (subentriesMatch : Bool) : Option Bool :=
  matchAny (fixPathForGlobmatch path) subentriesMatch (globs.map fixPathForGlobmatch)

/-! ### The parts of a path -/

/-- What a pattern means for the parts of a path. -/
def Matches : List Part → List Str → Prop
  | [], cs => cs = []
  | [.deep], cs => cs ≠ []
  | .deep :: parts, cs => ∃ k, Matches parts (cs.drop k)
  | .shallow _ :: _, [] => False
  | .shallow ps :: parts, c :: cs => PiecesMean ps c ∧ Matches parts cs

/-- The parts of a pattern. -/
def globParts (g : Str) : List Part := (nonempty ((g.dropWhile (· == '/')).splitOn '/')).map part

/-- The piece matches no separator. -/
def Piece.Stays : Piece → Prop
  | oneOf neg letters => ¬ Piece.Allows neg letters '/'
  | letter c => c ≠ '/'
  | _ => True

def Part.Stays : Part → Prop
  | deep => True
  | shallow ps => ∀ piece ∈ ps, piece.Stays

/-- The names on a path. -/
def Names (cs : List Str) : Prop := ∀ c ∈ cs, c ≠ [] ∧ '/' ∉ c

variable {ps : List Piece} {parts : List Part} {cs : List Str} {b u v w : Str}

theorem notMem_of_means {piece : Piece} (hstays : piece.Stays) (h : piece.Means u) : '/' ∉ u := by
  cases piece with
  | star => exact h
  | question =>
    rcases h with rfl | ⟨c, hc, rfl⟩
    · exact List.not_mem_nil
    · exact fun hmem => hc (List.mem_singleton.mp hmem).symm
  | oneOf neg letters =>
    obtain ⟨c, hc, rfl⟩ := h
    exact fun hmem => hstays ((List.mem_singleton.mp hmem) ▸ hc)
  | letter c =>
    obtain rfl : u = [c] := h
    exact fun hmem => hstays (List.mem_singleton.mp hmem).symm

theorem notMem_of_piecesMean (hstays : ∀ piece ∈ ps, piece.Stays) (h : PiecesMean ps u) :
    '/' ∉ u := by
  induction ps generalizing u with
  | nil =>
    obtain rfl : u = [] := h
    exact List.not_mem_nil
  | cons piece ps ih =>
    obtain ⟨hpiece, hps⟩ := List.forall_mem_cons.mp hstays
    obtain ⟨v, w, rfl, hv, hw⟩ := h
    rw [List.mem_append, not_or]
    exact ⟨notMem_of_means hpiece hv, ih hps hw⟩

/-- A path is cut at a separator between two of its names. -/
theorem intercalate_eq_append_cons (hcs : ∀ c ∈ cs, '/' ∉ c)
    (h : ['/'].intercalate cs = u ++ '/' :: w) :
    ∃ k, k < cs.length ∧ w = ['/'].intercalate (cs.drop k) := by
  induction cs generalizing u with
  | nil => exact absurd h (by simp)
  | cons c cs ih =>
    obtain ⟨hc, hcs⟩ := List.forall_mem_cons.mp hcs
    cases cs with
    | nil =>
      rw [List.intercalate_singleton] at h
      exact absurd (h ▸ List.mem_append_right u List.mem_cons_self) hc
    | cons d cs =>
      rw [List.intercalate_cons_cons, List.append_assoc, List.singleton_append] at h
      have hnext : w = ['/'].intercalate (d :: cs) → ∃ k, k < (c :: d :: cs).length ∧
          w = ['/'].intercalate ((c :: d :: cs).drop k) :=
        fun hw => ⟨1, by rw [List.length_cons, List.length_cons]; omega, hw⟩
      rcases List.append_eq_append_iff.mp h with ⟨r, -, hr⟩ | ⟨r, hu, hr⟩
      · cases r with
        | nil => exact hnext (List.cons.inj hr).2.symm
        | cons a r =>
          obtain ⟨k, hk, hw⟩ := ih hcs (List.cons.inj hr).2
          exact ⟨k + 1, Nat.succ_lt_succ hk, hw⟩
      · cases r with
        | nil => exact hnext (List.cons.inj hr).2
        | cons a r =>
          obtain rfl : '/' = a := (List.cons.inj hr).1
          exact absurd (hu ▸ List.mem_append_right u List.mem_cons_self) hc

theorem intercalate_cons_of_ne_nil (c : Str) (hne : cs ≠ []) :
    ['/'].intercalate (c :: cs) = c ++ '/' :: ['/'].intercalate cs := by
  obtain ⟨d, cs, rfl⟩ := List.exists_cons_of_ne_nil hne
  rw [List.intercalate_cons_cons, List.append_assoc, List.singleton_append]

/-- What follows the first separator. -/
theorem intercalate_eq_append_cons_iff (hcs : ∀ c ∈ cs, '/' ∉ c) (hu : '/' ∉ u) :
    ['/'].intercalate cs = u ++ '/' :: w ↔
      ∃ rest, rest ≠ [] ∧ cs = u :: rest ∧ w = ['/'].intercalate rest := by
  refine ⟨fun h => ?_, ?_⟩
  · match cs, hcs, h with
    | [], _, h => exact absurd h (by simp)
    | [c], hcs, h =>
      rw [List.intercalate_singleton] at h
      exact absurd (h ▸ List.mem_append_right u List.mem_cons_self) (hcs c List.mem_cons_self)
    | c :: d :: rest, hcs, h =>
      rw [intercalate_cons_of_ne_nil c (List.cons_ne_nil d rest)] at h
      obtain ⟨rfl, rfl⟩ := (append_cons_inj (hcs c List.mem_cons_self) hu).mp h
      exact ⟨d :: rest, List.cons_ne_nil d rest, rfl, rfl⟩
  · rintro ⟨rest, hrest, rfl, rfl⟩
    exact intercalate_cons_of_ne_nil u hrest

/-- The text of a path that has a name, and ends in one. -/
theorem intercalate_ne_nil (hcs : Names cs) (hne : cs ≠ []) : ['/'].intercalate cs ≠ [] := by
  obtain ⟨c, cs, rfl⟩ := List.exists_cons_of_ne_nil hne
  have hc := (hcs c List.mem_cons_self).1
  cases cs with
  | nil =>
    rw [List.intercalate_singleton]
    exact hc
  | cons d cs =>
    rw [intercalate_cons_of_ne_nil c (List.cons_ne_nil d cs)]
    exact List.append_ne_nil_of_left_ne_nil hc _

theorem getLast?_intercalate_ne (hcs : Names cs) (hne : cs ≠ []) :
    (['/'].intercalate cs).getLast? ≠ some '/' := by
  induction cs with
  | nil => exact absurd rfl hne
  | cons c cs ih =>
    obtain ⟨hc, hcs⟩ := List.forall_mem_cons.mp hcs
    cases cs with
    | nil =>
      rw [List.intercalate_singleton]
      exact fun h => hc.2 (List.mem_of_getLast? h)
    | cons d cs =>
      have hrest := intercalate_ne_nil hcs (List.cons_ne_nil d cs)
      rw [intercalate_cons_of_ne_nil c (List.cons_ne_nil d cs), List.append_cons,
        List.getLast?_append_of_ne_nil _ hrest]
      exact ih hcs (List.cons_ne_nil d cs)

theorem intercalate_append {xs ys : List Str} (hxs : xs ≠ []) (hys : ys ≠ []) :
    ['/'].intercalate (xs ++ ys) = ['/'].intercalate xs ++ '/' :: ['/'].intercalate ys := by
  induction xs with
  | nil => exact absurd rfl hxs
  | cons x xs ih =>
    cases xs with
    | nil =>
      rw [List.singleton_append, List.intercalate_singleton, intercalate_cons_of_ne_nil x hys]
    | cons x' xs =>
      have hne : x' :: xs ++ ys ≠ [] := List.cons_ne_nil x' _
      rw [List.cons_append, intercalate_cons_of_ne_nil x hne, ih (List.cons_ne_nil x' xs),
        intercalate_cons_of_ne_nil x (List.cons_ne_nil x' xs), List.append_assoc, List.cons_append]

/-! ### The meaning for the parts of a path -/

/-- A pattern with parts matches no empty path. -/
theorem not_matches_nil (p : Part) (parts : List Part) : ¬ Matches (p :: parts) [] := by
  induction parts generalizing p with
  | nil =>
    cases p with
    | deep => exact fun h => h rfl
    | shallow ps => exact id
  | cons q parts ih =>
    cases p with
    | deep =>
      rintro ⟨k, hk⟩
      rw [List.drop_nil] at hk
      exact ih q hk
    | shallow ps => exact id

/-- What precedes a part that `**` leaves. -/
theorem atBegin_append_iff (hb : AtBegin b) :
    AtBegin (b ++ v) ↔ v = [] ∨ ∃ u, v = u ++ ['/'] := by
  rcases List.eq_nil_or_concat' v with rfl | ⟨u, c, rfl⟩
  · rw [List.append_nil]
    exact iff_of_true hb (Or.inl rfl)
  · have hne : u ++ [c] ≠ [] := List.append_ne_nil_of_right_ne_nil u (List.cons_ne_nil c [])
    rw [AtBegin, or_iff_right (List.append_ne_nil_of_right_ne_nil b hne), or_iff_right hne,
      ← List.append_assoc, List.getLast?_concat, Option.some.injEq]
    refine ⟨fun h => ⟨u, by rw [h]⟩, ?_⟩
    rintro ⟨u', h⟩
    exact (List.cons.inj (List.append_inj' h rfl).2).1

/-- What `**` leaves of a path is some of its names. -/
theorem exists_drop_of_atBegin (hcs : Names cs) (hne : cs ≠ []) (hb : AtBegin b)
    (h : ['/'].intercalate cs = v ++ w) (hbegin : AtBegin (b ++ v)) :
    ∃ k, k < cs.length ∧ w = ['/'].intercalate (cs.drop k) := by
  rcases (atBegin_append_iff hb).mp hbegin with rfl | ⟨u, rfl⟩
  · exact ⟨0, List.length_pos_of_ne_nil hne, h.symm⟩
  · rw [List.append_assoc, List.singleton_append] at h
    exact intercalate_eq_append_cons (fun c hc => (hcs c hc).2) h

/-- `**` can leave any of the names. -/
theorem exists_atBegin_of_drop (hb : AtBegin b) {k : Nat} (hdrop : cs.drop k ≠ []) :
    ∃ v, ['/'].intercalate cs = v ++ ['/'].intercalate (cs.drop k) ∧ AtBegin (b ++ v) := by
  cases htake : cs.take k with
  | nil =>
    refine ⟨[], ?_, (atBegin_append_iff hb).mpr (Or.inl rfl)⟩
    have heq := List.take_append_drop k cs
    rw [htake, List.nil_append] at heq
    rw [heq, List.nil_append]
  | cons c rest =>
    refine ⟨['/'].intercalate (c :: rest) ++ ['/'], ?_,
      (atBegin_append_iff hb).mpr (Or.inr ⟨_, rfl⟩)⟩
    rw [List.append_assoc, List.singleton_append,
      ← intercalate_append (List.cons_ne_nil c rest) hdrop, ← htake, List.take_append_drop]

theorem names_drop (hcs : Names cs) (k : Nat) : Names (cs.drop k) :=
  fun c hc => hcs c (List.mem_of_mem_drop hc)

/-- The last part matches the last name. -/
theorem means_last_iff (hp : (Part.shallow ps).Stays) (hcs : Names cs) (hne : cs ≠ []) :
    Means false [.shallow ps] b (['/'].intercalate cs) ↔ ∃ c, cs = [c] ∧ PiecesMean ps c := by
  have hlast := getLast?_intercalate_ne hcs hne
  rw [Means]
  refine ⟨?_, ?_⟩
  · rintro ⟨v, w, heq, hv, hw⟩
    rcases hw rfl with rfl | rfl
    · rw [List.append_nil] at heq
      have hnot := notMem_of_piecesMean hp hv
      obtain ⟨c, cs, rfl⟩ := List.exists_cons_of_ne_nil hne
      cases cs with
      | nil =>
        rw [List.intercalate_singleton] at heq
        exact ⟨c, rfl, heq ▸ hv⟩
      | cons d cs =>
        rw [intercalate_cons_of_ne_nil c (List.cons_ne_nil d cs)] at heq
        exact absurd (heq ▸ List.mem_append_right c List.mem_cons_self) hnot
    · exact absurd (heq ▸ List.getLast?_concat) hlast
  · rintro ⟨c, rfl, hc⟩
    exact ⟨c, [], by rw [List.intercalate_singleton, List.append_nil], hc, fun _ => Or.inl rfl⟩

/-- **Text and parts.**  The meaning for the text of a path is the one for its names. -/
theorem means_intercalate_iff (hstays : ∀ p ∈ parts, p.Stays) (hcs : Names cs) (hne : cs ≠ [])
    (hb : AtBegin b) : Means false parts b (['/'].intercalate cs) ↔ Matches parts cs := by
  induction parts generalizing b cs with
  | nil => exact iff_of_false (intercalate_ne_nil hcs hne) hne
  | cons p parts ih =>
    obtain ⟨hp, hparts⟩ := List.forall_mem_cons.mp hstays
    cases p with
    | deep =>
      cases parts with
      | nil => exact iff_of_true (intercalate_ne_nil hcs hne) hne
      | cons q parts =>
        rw [Means, Matches]
        · refine ⟨?_, ?_⟩
          · rintro ⟨v, w, heq, hbegin, hmeans⟩
            obtain ⟨k, hk, rfl⟩ := exists_drop_of_atBegin hcs hne hb heq hbegin
            have hdrop : cs.drop k ≠ [] := List.drop_eq_nil_iff.not.mpr (Nat.not_le_of_lt hk)
            exact ⟨k, (ih hparts (names_drop hcs k) hdrop hbegin).mp hmeans⟩
          · rintro ⟨k, hk⟩
            have hdrop : cs.drop k ≠ [] := fun h => not_matches_nil q parts (h ▸ hk)
            obtain ⟨v, heq, hbegin⟩ := exists_atBegin_of_drop hb hdrop
            exact ⟨v, _, heq, hbegin, (ih hparts (names_drop hcs k) hdrop hbegin).mpr hk⟩
        · exact List.cons_ne_nil q parts
        · exact List.cons_ne_nil q parts
    | shallow ps =>
      obtain ⟨c, cs, rfl⟩ := List.exists_cons_of_ne_nil hne
      cases parts with
      | nil =>
        rw [means_last_iff hp hcs hne, Matches, Matches]
        refine ⟨?_, ?_⟩
        · rintro ⟨d, heq, hd⟩
          obtain ⟨rfl, rfl⟩ := List.cons.inj heq
          exact ⟨hd, rfl⟩
        · rintro ⟨hc, rfl⟩
          exact ⟨c, rfl, hc⟩
      | cons q parts =>
        obtain ⟨hc, hrest⟩ := List.forall_mem_cons.mp hcs
        have hslash : ∀ d ∈ c :: cs, '/' ∉ d := fun d hd => (hcs d hd).2
        have hbegin : ∀ v : Str, AtBegin (b ++ v ++ ['/']) := fun v => Or.inr List.getLast?_concat
        rw [Means, Matches]
        · refine ⟨?_, ?_⟩
          · rintro ⟨v, w, heq, hv, hmeans⟩
            have hnot := notMem_of_piecesMean hp hv
            obtain ⟨rest, hne', hcons, rfl⟩ := (intercalate_eq_append_cons_iff hslash hnot).mp heq
            obtain ⟨rfl, rfl⟩ := List.cons.inj hcons
            exact ⟨hv, (ih hparts hrest hne' (hbegin _)).mp hmeans⟩
          · rintro ⟨hv, hmatches⟩
            have hne' : cs ≠ [] := fun h => not_matches_nil q parts (h ▸ hmatches)
            exact ⟨c, _, intercalate_cons_of_ne_nil c hne', hv,
              (ih hparts hrest hne' (hbegin _)).mpr hmatches⟩
        · exact List.cons_ne_nil q parts

/-! ### Matching -/

/-- Each class of the part has ascending ranges that let no separator through. -/
def Part.Fine : Part → Prop
  | deep => True
  | shallow ps => ∀ neg letters, .oneOf neg letters ∈ ps →
      classRanges letters ≠ none ∧ ¬ Piece.Allows neg letters '/'

theorem mem_of_letter_mem_pieces {c : Char} {skip : Nat} {pat : Str}
    (h : .letter c ∈ pieces skip pat) : c ∈ pat := by
  induction pat generalizing skip with
  | nil => exact absurd h List.not_mem_nil
  | cons d pat ih =>
    have hrest {skip : Nat} (h : .letter c ∈ pieces skip pat) : c ∈ d :: pat :=
      List.mem_cons_of_mem d (ih h)
    cases skip with
    | succ skip => exact hrest h
    | zero =>
      rw [pieces] at h
      split at h
      · exact hrest ((List.mem_cons.mp h).resolve_left Piece.noConfusion)
      split at h
      · exact hrest ((List.mem_cons.mp h).resolve_left Piece.noConfusion)
      split at h
      case isTrue hbracket =>
        split at h
        · rcases List.mem_cons.mp h with h | h
          · exact List.mem_cons.mpr (Or.inl ((Piece.letter.inj h).trans hbracket.symm))
          · exact hrest h
        · refine hrest ((List.mem_cons.mp h).resolve_left fun h => ?_)
          rw [Piece.ofClass] at h
          split at h
          · exact Piece.noConfusion h
          · exact Piece.noConfusion h
      case isFalse =>
        rcases List.mem_cons.mp h with h | h
        · exact List.mem_cons.mpr (Or.inl (Piece.letter.inj h))
        · exact hrest h

theorem wellFormed_of_fine {p : Part} (h : p.Fine) : p.WellFormed := by
  cases p with
  | deep => trivial
  | shallow ps =>
    intro piece hpiece
    cases piece with
    | oneOf neg letters => exact (h neg letters hpiece).1
    | _ => trivial

theorem stays_of_fine {pat : Str} (hpat : '/' ∉ pat) (h : (part pat).Fine) : (part pat).Stays := by
  rw [part] at h ⊢
  split
  · trivial
  case isFalse hne =>
    rw [if_neg hne] at h
    intro piece hpiece
    cases piece with
    | oneOf neg letters => exact (h neg letters hpiece).2
    | letter c => exact fun hc => hpat (hc ▸ mem_of_letter_mem_pieces hpiece)
    | _ => trivial

theorem mem_of_mem_nonempty {c : Str} {cs : List Str} (h : c ∈ nonempty cs) : c ∈ cs := by
  fun_induction nonempty cs with
  | case1 => exact h
  | case2 => exact h
  | case3 parts _ ih => exact List.mem_cons_of_mem _ (ih h)
  | case4 c' parts _ _ ih =>
    rcases List.mem_cons.mp h with rfl | h
    · exact List.mem_cons_self
    · exact List.mem_cons_of_mem _ (ih h)

theorem notMem_of_mem_glob {g c : Str}
    (h : c ∈ nonempty ((g.dropWhile (· == '/')).splitOn '/')) : '/' ∉ c :=
  fun hc => (mem_of_mem_splitOn (mem_of_mem_nonempty h) hc).2 rfl

/-- The parts of a pattern with `start/` before it. -/
theorem iexplodePath_fixPath (g : Str) :
    iexplodePath (fixPathForGlobmatch g) =
      "start".toList :: nonempty ((g.dropWhile (· == '/')).splitOn '/') := by
  have hparts : ∀ c ∈ (g.dropWhile (· == '/')).splitOn '/', '/' ∉ c :=
    fun c hc hmem => (mem_of_mem_splitOn hc hmem).2 rfl
  have hstart : "start".toList ≠ [] := by decide
  have hlast : "start".toList.getLast hstart ≠ '/' := by
    show 't' ≠ '/'
    decide
  have hone : iexplodePath "start".toList = ["start".toList] := iexplodePath_of_notMem (by decide)
  have hbelow := iexplodePath_intercalate hstart hlast (List.splitOn_ne_nil '/' _) hparts 0
  rw [List.intercalate_splitOn, hone] at hbelow
  exact hbelow

theorem piecesMean_start {u : Str} : PiecesMean (pieces 0 "start".toList) u ↔ u = "start".toList := by
  refine ⟨?_, ?_⟩
  · rintro ⟨_, _, rfl, rfl, _, _, rfl, rfl, _, _, rfl, rfl, _, _, rfl, rfl, _, _, rfl, rfl, rfl⟩
    rfl
  · rintro rfl
    exact ⟨['s'], _, rfl, rfl, ['t'], _, rfl, rfl, ['a'], _, rfl, rfl, ['r'], _, rfl, rfl,
      ['t'], _, rfl, rfl, rfl⟩

theorem fine_start : (Part.shallow (pieces 0 "start".toList)).Fine := by
  intro neg letters h
  exact absurd h (by simp [pieces])

/-- The path with `start/` before it. -/
theorem fixPath_intercalate (hcs : Names cs) (hne : cs ≠ []) (n : Nat) :
    fixPathForGlobmatch (List.replicate n '/' ++ ['/'].intercalate cs) =
      ['/'].intercalate ("start".toList :: cs) := by
  have hdrop : (List.replicate n '/' ++ ['/'].intercalate cs).dropWhile (· == '/') =
      ['/'].intercalate cs := by
    rw [List.dropWhile_append_of_pos (by simp)]
    obtain ⟨c, cs, rfl⟩ := List.exists_cons_of_ne_nil hne
    obtain ⟨hc, hslash⟩ := hcs c List.mem_cons_self
    obtain ⟨d, c, rfl⟩ := List.exists_cons_of_ne_nil hc
    have hd : ¬ (d == '/') = true := fun h => hslash (beq_iff_eq.mp h ▸ List.mem_cons_self)
    cases cs with
    | nil => rw [List.intercalate_singleton, List.dropWhile_cons_of_neg (p := (· == '/')) hd]
    | cons d cs =>
      rw [intercalate_cons_of_ne_nil _ (List.cons_ne_nil d cs), List.cons_append,
        List.dropWhile_cons_of_neg (p := (· == '/')) hd]
  rw [fixPathForGlobmatch, hdrop, intercalate_cons_of_ne_nil _ hne]
  rfl

/-- One pattern. -/
theorem compilePattern_fixPath {g : Str} (hg : ∀ p ∈ globParts g, p.Fine) :
    ∃ matcher, compilePattern (fixPathForGlobmatch g) false = some matcher ∧
      ∀ cs n, Names cs → cs ≠ [] →
        (matcher (fixPathForGlobmatch (List.replicate n '/' ++ ['/'].intercalate cs)) = true ↔
          Matches (globParts g) cs) := by
  have hstart : part "start".toList = .shallow (pieces 0 "start".toList) := rfl
  have hparts : (iexplodePath (fixPathForGlobmatch g)).map part =
      .shallow (pieces 0 "start".toList) :: globParts g := by
    rw [iexplodePath_fixPath, List.map_cons, hstart]
    rfl
  have hstays : ∀ p ∈ Part.shallow (pieces 0 "start".toList) :: globParts g, p.Stays := by
    have hstays : (part "start".toList).Stays := stays_of_fine (by decide) fine_start
    refine List.forall_mem_cons.mpr ⟨hstays, fun p hp => ?_⟩
    obtain ⟨c, hc, rfl⟩ := List.mem_map.mp hp
    exact stays_of_fine (notMem_of_mem_glob hc) (hg _ hp)
  have hwellFormed : ∀ p ∈ Part.shallow (pieces 0 "start".toList) :: globParts g, p.WellFormed :=
    List.forall_mem_cons.mpr ⟨wellFormed_of_fine fine_start, fun p hp => wellFormed_of_fine (hg p hp)⟩
  have hmeans := compilePattern_means (fixPathForGlobmatch g) false
  rw [hparts] at hmeans
  cases hcompile : compilePattern (fixPathForGlobmatch g) false with
  | none =>
    rw [hcompile] at hmeans
    obtain ⟨p, hp, hbad⟩ := hmeans
    exact absurd (hwellFormed p hp) hbad
  | some matcher =>
    rw [hcompile] at hmeans
    refine ⟨matcher, rfl, fun cs n hcs hne => ?_⟩
    have hnames : Names ("start".toList :: cs) :=
      List.forall_mem_cons.mpr ⟨⟨by decide, by decide⟩, hcs⟩
    rw [fixPath_intercalate hcs hne, hmeans.2,
      means_intercalate_iff hstays hnames (List.cons_ne_nil _ cs) (Or.inl rfl), Matches,
      piecesMean_start]
    exact and_iff_right rfl

/-- **Matching.**  A path matches when one of the patterns does, part by part, whatever
separators it begins with. -/
theorem globMatch_iff {globs : List Str} (hglobs : ∀ g ∈ globs, ∀ p ∈ globParts g, p.Fine)
    (hcs : Names cs) (hne : cs ≠ []) (n : Nat) :
    ∃ found, globMatch (List.replicate n '/' ++ ['/'].intercalate cs) globs false = some found ∧
      (found = true ↔ ∃ g ∈ globs, Matches (globParts g) cs) := by
  rw [globMatch]
  induction globs with
  | nil => exact ⟨false, rfl, iff_of_false Bool.false_ne_true fun ⟨g, hg, _⟩ => nomatch hg⟩
  | cons g globs ih =>
    obtain ⟨hg, hglobs⟩ := List.forall_mem_cons.mp hglobs
    obtain ⟨matcher, hcompile, hmatcher⟩ := compilePattern_fixPath hg
    have hmatcher := hmatcher cs n hcs hne
    obtain ⟨found, hfound, hiff⟩ := ih hglobs
    rw [List.map_cons, matchAny, hcompile, Option.bind_some]
    split
    case isTrue h =>
      exact ⟨true, rfl, iff_of_true rfl ⟨g, List.mem_cons_self, hmatcher.mp h⟩⟩
    case isFalse h =>
      refine ⟨found, hfound, hiff.trans ⟨?_, ?_⟩⟩
      · rintro ⟨g', hg', hmatches⟩
        exact ⟨g', List.mem_cons_of_mem g hg', hmatches⟩
      · rintro ⟨g', hg', hmatches⟩
        rcases List.mem_cons.mp hg' with rfl | hg'
        · exact absurd (hmatcher.mpr hmatches) h
        · exact ⟨g', hg', hmatches⟩

/-- The tests of a package, by the first letter of what they are about. -/
def testGlob : Str := "/app/**/test_[a-c]*.py".toList

theorem fine_testGlob : ∀ p ∈ globParts testGlob, p.Fine := by
  have hparts : globParts testGlob =
      [.shallow (pieces 0 "app".toList), .deep, .shallow (pieces 0 "test_[a-c]*.py".toList)] := rfl
  have hplain : ∀ ps : List Piece, (∀ piece ∈ ps, ∀ neg letters, piece ≠ .oneOf neg letters) →
      (Part.shallow ps).Fine := fun ps hps neg letters h => absurd rfl (hps _ h neg letters)
  rw [hparts]
  refine List.forall_mem_cons.mpr ⟨?_, List.forall_mem_cons.mpr ⟨trivial,
    List.forall_mem_cons.mpr ⟨?_, fun p hp => absurd hp List.not_mem_nil⟩⟩⟩
  · exact hplain _ (by simp [pieces])
  · intro neg letters h
    have hpieces : pieces 0 "test_[a-c]*.py".toList = "test_".toList.map .letter ++
        [.oneOf false "a-c".toList, .star] ++ ".py".toList.map .letter := rfl
    have hclass : neg = false ∧ letters = "a-c".toList := by
      rw [hpieces] at h
      simpa using h
    obtain ⟨rfl, rfl⟩ := hclass
    refine ⟨Option.some_ne_none _, ?_⟩
    rintro ⟨rs, hrs, hin⟩
    obtain rfl := Option.some.inj hrs
    exact absurd hin (by decide)

theorem globMatch_testGlob :
    ∃ found, globMatch (List.replicate 1 '/' ++ ['/'].intercalate
        ["app".toList, "core".toList, "test_base.py".toList]) [testGlob] false = some found ∧
      (found = true ↔ ∃ g ∈ [testGlob],
        Matches (globParts g) ["app".toList, "core".toList, "test_base.py".toList]) :=
  globMatch_iff (List.forall_mem_singleton.mpr fine_testGlob)
    (fun c hc => by revert c; decide) (by decide) 1

end Reloadium.Glob
