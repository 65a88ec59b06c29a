import Reloadium.Editor.Document
import Reloadium.Lib.Assoc
import Reloadium.Lib.Spread
import Reloadium.Profile.CumulateMaps
import Mathlib.Data.Finset.Max

namespace Reloadium.Profile

open Reloadium.Lib Reloadium.Editor

/-!
# Profile — the values of folded lines

Model of `FileValues.getFoldedValues`.  It copies the values of the lines of a frame, and
then goes through the collapsed regions of the editor from the last one to the first: a region
adds up what its lines have by then and gives the sum to each of them.

An outer region comes after those inside it, so it adds up their sums, once for each of their
lines.  `getFoldedValues_eq` gives the result by what counts for a line, and
`sumsOfRaw_iff` says when the lines of an outermost region get the sum of their own values:
when whatever counts on top of that adds up to nothing.
-/

/-- A hash map by its entries, in the order in which it lists them. -/
structure Entries (m : PMap Int Int64) where
  list : List (Int × Int64)
  nodup : (list.map Prod.fst).Nodup
  lookup : ∀ l, list.lookup l = m l

/-- The lines of a batch. -/
def Op.lines : Op → List Int
  | .update values _ _ _ => values.map Prod.fst
  | .clear => []
  | .clearRange _ _ => []

/-- A line without a sample in any batch has none. -/
theorem recorded_of_notMem {ops : List Op} {l : Int} (h : l ∉ ops.flatMap Op.lines) :
    recorded ops l = [] := by
  induction ops using List.reverseRecOn with
  | nil => rfl
  | append_singleton ops op ih =>
    rw [List.flatMap_append, List.mem_append, not_or] at h
    have hrest := ih h.1
    rw [recorded, List.foldl_append, ← recorded, hrest]
    cases op with
    | update values frame frameLine cumulateType =>
      have hl : l ∉ values.map Prod.fst := by simpa [Op.lines] using h.2
      exact samplesOf_of_notMem hl
    | clear => rfl
    | clearRange start stop =>
      show (if start ≤ l ∧ l ≤ stop then ([] : List Int64) else []) = []
      rw [ite_self]

/-- A map of a state that some operations lead to. -/
def Entries.ofRun (ops : List Op) (cumulateType : CumulateType) :
    Entries ((run ops).values cumulateType) where
  list := Assoc.entries ((run ops).values cumulateType) (ops.flatMap Op.lines).dedup
  nodup := Assoc.nodup_entries _ (List.nodup_dedup _)
  lookup l := Assoc.lookup_entries fun hl => by
    rw [List.mem_dedup]
    by_contra hmem
    have hline : (run ops).line l = .empty := by
      rw [line_run, recorded_of_notMem hmem]
      rfl
    rw [← line_get, hline] at hl
    cases cumulateType <;> cases hl

namespace FileValues

/-- The values of a line are shown: there is no filter, or its frame is that of the filter. -/
def admits (fv : FileValues) (frame : Option String) (line : Int) : Bool :=
  frame.all fun f => fv.lineToFrame line = some f

/-- The body of the loop over the values.  A line with a value and without a frame name is a
    `NullPointerException` for every filter. -/
def putRaw (fv : FileValues) (frame : Option String) (ret : List (Int × Int64))
    (entry : Int × Int64) : Option (List (Int × Int64)) :=
  let line := entry.1 - 1
  match frame with
  | none => some (Assoc.put ret line entry.2)
  | some frame =>
    (fv.lineToFrame line).map fun f => if f = frame then Assoc.put ret line entry.2 else ret

/-- The lines of a region, from the one it starts in to the one it ends in. -/
def regionLines (document : Document) (region : FoldRegion) : Option (List Int) := do
  let startLine ← document.getLineNumber region.startOffset
  let endLine ← document.getLineNumber region.endOffset
  some (rangeClosed startLine endLine)

/-- The loop that adds up the values of the lines of a region. -/
def sumLines (ret : List (Int × Int64)) (lines : List Int) : Option Int64 :=
  lines.foldl (fun sum l =>
    match ret.lookup l with
    | none => sum
    | some value => some (sum.getD 0 + value)) none

/-- The body of the loop over the regions. -/
def foldRegion (document : Document) (ret : List (Int × Int64)) (region : FoldRegion) :
    Option (List (Int × Int64)) :=
  if region.isExpanded then some ret
  else do
    let lines ← regionLines document region
    match sumLines ret lines with
    | none => some ret
    | some sum => some (lines.foldl (fun ret l => Assoc.put ret l sum) ret)

/-- `FileValues.getFoldedValues`; `cumulateValues` is the copy of the map of the type. -/
def getFoldedValues (fv : FileValues) (editor : FoldedText) (frame : Option String)
    (cumulateType : CumulateType) (cumulateValues : Entries (fv.values cumulateType)) :
    Option (List (Int × Int64)) := do
  let ret ← cumulateValues.list.foldlM (fv.putRaw frame) []
  editor.foldRegions.reverse.foldlM (foldRegion editor.document) ret

/-- The raw value of a line that is shown; lines are counted from zero here, and from one in
    the map. -/
def rawValue (fv : FileValues) (frame : Option String) (cumulateType : CumulateType)
    (line : Int) : Option Int64 :=
  if fv.admits frame line then fv.values cumulateType (line + 1) else none

/-- Under a filter, every line with a value has a frame name. -/
def Framed (fv : FileValues) (frame : Option String) (cumulateType : CumulateType) : Prop :=
  frame.isSome → ∀ l, (fv.values cumulateType l).isSome → (fv.lineToFrame (l - 1)).isSome

end FileValues

open FileValues

/-! ### The raw values -/

section Raw

variable {fv : FileValues} {frame : Option String}

/-- The loop body, where it does not throw. -/
theorem putRaw_eq {ret : List (Int × Int64)} {entry : Int × Int64}
    (h : frame.isSome → (fv.lineToFrame (entry.1 - 1)).isSome) :
    fv.putRaw frame ret entry =
      some (if fv.admits frame (entry.1 - 1) then Assoc.put ret (entry.1 - 1) entry.2
        else ret) := by
  cases frame with
  | none => rfl
  | some frame =>
    obtain ⟨f, hf⟩ := Option.isSome_iff_exists.mp (h rfl)
    simp [putRaw, admits, hf]

theorem foldlM_putRaw {list : List (Int × Int64)} (hnodup : (list.map Prod.fst).Nodup)
    (h : ∀ e ∈ list, frame.isSome → (fv.lineToFrame (e.1 - 1)).isSome)
    {ret : List (Int × Int64)} (hret : (ret.map Prod.fst).Nodup) :
    ∃ ret', list.foldlM (fv.putRaw frame) ret = some ret' ∧ (ret'.map Prod.fst).Nodup ∧
      ∀ l, ret'.lookup l =
        if fv.admits frame l then (list.lookup (l + 1)).or (ret.lookup l) else ret.lookup l := by
  induction list generalizing ret with
  | nil => exact ⟨ret, rfl, hret, fun l => by simp⟩
  | cons e list ih =>
    obtain ⟨k, v⟩ := e
    rw [List.map_cons, List.nodup_cons] at hnodup
    have hbody := @putRaw_eq fv frame ret (k, v) (h _ List.mem_cons_self)
    rw [List.foldlM_cons, hbody]
    by_cases hadmits : fv.admits frame (k - 1) = true
    · rw [if_pos hadmits]
      obtain ⟨ret', hfold, hnodup', hlookup⟩ := ih hnodup.2
        (fun e he => h e (List.mem_cons_of_mem _ he)) (Assoc.nodup_put hret)
      refine ⟨ret', hfold, hnodup', fun l => ?_⟩
      rw [hlookup, Assoc.lookup_put]
      by_cases hl : l = k - 1
      · -- no other entry is of this line
        subst hl
        have hnone : list.lookup k = none := Assoc.lookup_eq_none_iff.mpr hnodup.1
        simp [hadmits, hnone]
      · have hk : l + 1 ≠ k := by omega
        rw [if_neg hl, Assoc.lookup_cons_of_ne hk]
    · rw [if_neg hadmits]
      obtain ⟨ret', hfold, hnodup', hlookup⟩ := ih hnodup.2
        (fun e he => h e (List.mem_cons_of_mem _ he)) hret
      refine ⟨ret', hfold, hnodup', fun l => ?_⟩
      rw [hlookup]
      by_cases hl : l = k - 1
      · subst hl
        rw [if_neg hadmits, if_neg hadmits]
      · have hk : l + 1 ≠ k := by omega
        rw [Assoc.lookup_cons_of_ne hk]

/-- A line with a value and without a frame name stops the loop. -/
theorem foldlM_putRaw_eq_none {list : List (Int × Int64)} {f : String} {e : Int × Int64}
    (he : e ∈ list) (hnone : fv.lineToFrame (e.1 - 1) = none) (ret : List (Int × Int64)) :
    list.foldlM (fv.putRaw (some f)) ret = none := by
  induction list generalizing ret with
  | nil => cases he
  | cons e' list ih =>
    rw [List.foldlM_cons]
    rcases List.mem_cons.mp he with rfl | hmem
    · have hbody : fv.putRaw (some f) ret e = none := by simp [putRaw, hnone]
      rw [hbody]
      rfl
    · cases hbody : fv.putRaw (some f) ret e' with
      | none => rfl
      | some ret' => exact ih hmem ret'

end Raw

/-! ### Sums of values

The sum of no value at all is no value, so the loops add up in 64-bit integers with a zero
adjoined. -/

instance instAddCommMonoidInt64 : AddCommMonoid Int64 where
  add_assoc := Int64.add_assoc
  zero_add := Int64.zero_add
  add_zero := Int64.add_zero
  add_comm := Int64.add_comm
  nsmul := nsmulRec

/-- A value that may be absent, with absence as the zero. -/
def sample (v : Option Int64) : WithZero Int64 := v

theorem sample_inj {v w : Option Int64} : sample v = sample w ↔ v = w := Iff.rfl

/-- The sum of the raw values of some lines. -/
def rawSum (raw : Int → Option Int64) (lines : List Int) : Int64 :=
  (lines.map fun l => (raw l).getD 0).sum

/-- One of the lines has a value. -/
def Valued (raw : Int → Option Int64) (lines : List Int) : Prop := ∃ l ∈ lines, (raw l).isSome

theorem sum_samples (raw : Int → Option Int64) (lines : List Int) :
    (Valued raw lines → (lines.map fun l => sample (raw l)).sum = sample (some (rawSum raw lines))) ∧
      (¬ Valued raw lines → (lines.map fun l => sample (raw l)).sum = sample none ∧
        rawSum raw lines = 0) := by
  induction lines with
  | nil => exact ⟨nofun, fun _ => ⟨rfl, rfl⟩⟩
  | cons l lines ih =>
    have hvalued : Valued raw (l :: lines) ↔ (raw l).isSome ∨ Valued raw lines := by
      simp only [Valued, List.mem_cons, exists_eq_or_imp]
    have hsum : rawSum raw (l :: lines) = (raw l).getD 0 + rawSum raw lines := by
      rw [rawSum, List.map_cons, List.sum_cons]
      rfl
    rw [hvalued, hsum, List.map_cons, List.sum_cons]
    cases hl : raw l with
    | none =>
      have hadd : ∀ w : WithZero Int64, sample none + w = w := zero_add
      rw [hadd, Option.getD_none, Int64.zero_add]
      simpa using ih
    | some v =>
      refine ⟨fun _ => ?_, fun h => absurd (Or.inl rfl) h⟩
      rw [Option.getD_some]
      by_cases hlines : Valued raw lines
      · rw [ih.1 hlines]
        rfl
      · obtain ⟨hzero, hrest⟩ := ih.2 hlines
        rw [hzero, hrest, Int64.add_zero]
        rfl

/-- The loop of the source over some lines. -/
theorem sumLines_eq (ret : List (Int × Int64)) (lines : List Int) :
    sample (sumLines ret lines) = (lines.map fun l => sample (ret.lookup l)).sum := by
  unfold sumLines
  -- from any sum so far
  have h : ∀ sum : Option Int64,
      sample (lines.foldl (fun sum l =>
        match ret.lookup l with
        | none => sum
        | some value => some (sum.getD 0 + value)) sum) =
      sample sum + (lines.map fun l => sample (ret.lookup l)).sum := by
    induction lines with
    | nil => exact fun sum => (add_zero (sample sum)).symm
    | cons l lines ih =>
      intro sum
      rw [List.foldl_cons, ih, List.map_cons, List.sum_cons, ← add_assoc]
      congr 1
      cases ret.lookup l with
      | none => exact (add_zero (sample sum)).symm
      | some value =>
        cases sum with
        | none => exact congrArg (fun w => sample (some w)) (Int64.zero_add value)
        | some s => rfl
  exact (h none).trans (zero_add _)

/-! ### The regions -/

/-- The lines of a region, whose offsets are inside the text. -/
def linesOf (document : Document) (region : FoldRegion) : List Int :=
  rangeClosed (Lines.number newline document region.startOffset)
    (Lines.number newline document region.endOffset)

/-- The lines of the collapsed regions, in the order of the editor. -/
def collapsedLines (editor : FoldedText) : List (List Int) :=
  (editor.foldRegions.filter fun region => !region.isExpanded).map (linesOf editor.document)

theorem lookup_foldl_put (lines : List Int) (sum : Int64) {ret : List (Int × Int64)}
    (hret : (ret.map Prod.fst).Nodup) :
    ((lines.foldl (fun ret l => Assoc.put ret l sum) ret).map Prod.fst).Nodup ∧
      ∀ l, (lines.foldl (fun ret l => Assoc.put ret l sum) ret).lookup l =
        if l ∈ lines then some sum else ret.lookup l := by
  induction lines generalizing ret with
  | nil => exact ⟨hret, fun l => by simp⟩
  | cons k lines ih =>
    obtain ⟨hnodup, hlookup⟩ := ih (@Assoc.nodup_put _ _ _ ret k sum hret)
    refine ⟨hnodup, fun l => ?_⟩
    rw [List.foldl_cons, hlookup, Assoc.lookup_put]
    by_cases hl : l ∈ lines <;> by_cases hk : l = k <;> simp [hl, hk]

/-- A region spreads the sum of its lines. -/
theorem foldRegion_eq {document : Document} {region : FoldRegion}
    (hinside : region.startOffset ≤ region.endOffset ∧ region.endOffset ≤ document.getTextLength)
    {ret : List (Int × Int64)} (hret : (ret.map Prod.fst).Nodup) :
    ∃ ret', foldRegion document ret region = some ret' ∧ (ret'.map Prod.fst).Nodup ∧
      (fun l => sample (ret'.lookup l)) =
        if region.isExpanded then fun l => sample (ret.lookup l)
        else Spread.spread (linesOf document region) fun l => sample (ret.lookup l) := by
  rw [foldRegion]
  cases region.isExpanded with
  | true => exact ⟨ret, rfl, hret, rfl⟩
  | false =>
    have hlines : regionLines document region = some (linesOf document region) := by
      have hstart : region.startOffset ≤ document.getTextLength := hinside.1.trans hinside.2
      rw [regionLines, Document.getLineNumber, Document.getLineNumber, if_pos hstart,
        if_pos hinside.2]
      rfl
    have hsum := sumLines_eq ret (linesOf document region)
    rw [hlines]
    cases hs : sumLines ret (linesOf document region) with
    | none =>
      rw [hs] at hsum
      refine ⟨ret, ?_, hret, funext fun l => ?_⟩
      · simp [hs]
      · -- a sum that is absent is that of lines without a value
        have hvalued : ¬ Valued (fun l => ret.lookup l) (linesOf document region) := by
          intro h
          rw [(sum_samples _ _).1 h] at hsum
          cases sample_inj.mp hsum
        simp only [Bool.false_eq_true, if_false, Spread.spread, ← hsum]
        split
        · next hl =>
          cases hlookup : ret.lookup l with
          | none => rfl
          | some v => exact absurd ⟨l, hl, by simp [hlookup]⟩ hvalued
        · rfl
    | some sum =>
      rw [hs] at hsum
      obtain ⟨hnodup, hlookup⟩ := lookup_foldl_put (linesOf document region) sum hret
      refine ⟨_, ?_, hnodup, funext fun l => ?_⟩
      · simp [hs]
      · rw [hlookup]
        simp only [Bool.false_eq_true, if_false, Spread.spread, ← hsum]
        split <;> rfl

/-- **Run lemma.** The regions spread their sums, the last one first. -/
theorem foldlM_foldRegion (document : Document) (regions : List FoldRegion)
    (hinside : ∀ region ∈ regions, region.startOffset ≤ region.endOffset ∧
      region.endOffset ≤ document.getTextLength)
    {ret : List (Int × Int64)} (hret : (ret.map Prod.fst).Nodup) :
    ∃ ret', regions.reverse.foldlM (foldRegion document) ret = some ret' ∧
      (ret'.map Prod.fst).Nodup ∧
      (fun l => sample (ret'.lookup l)) =
        ((regions.filter fun region => !region.isExpanded).map (linesOf document)).foldr
          Spread.spread fun l => sample (ret.lookup l) := by
  induction regions with
  | nil => exact ⟨ret, rfl, hret, rfl⟩
  | cons region regions ih =>
    obtain ⟨ret₁, hfold₁, hnodup₁, hlookup₁⟩ :=
      ih fun r hr => hinside r (List.mem_cons_of_mem region hr)
    obtain ⟨ret₂, hfold₂, hnodup₂, hlookup₂⟩ :=
      foldRegion_eq (hinside region List.mem_cons_self) hnodup₁
    refine ⟨ret₂, ?_, hnodup₂, ?_⟩
    · rw [List.reverse_cons, List.foldlM_append, hfold₁]
      simp [hfold₂]
    · rw [hlookup₂, hlookup₁, List.filter_cons]
      cases region.isExpanded <;> rfl

/-! ### The result -/

section Result

variable {fv : FileValues} {editor : FoldedText} {frame : Option String}
  {cumulateType : CumulateType} {cumulateValues : Entries (fv.values cumulateType)}

/-- Without frame names for the lines of the values there is no result. -/
theorem getFoldedValues_eq_none (h : ¬ fv.Framed frame cumulateType) :
    fv.getFoldedValues editor frame cumulateType cumulateValues = none := by
  simp only [Framed, not_forall, Bool.not_eq_true, Option.isSome_eq_false_iff,
    Option.isNone_iff_eq_none] at h
  obtain ⟨hframe, l, hl, hnone⟩ := h
  obtain ⟨f, rfl⟩ := Option.isSome_iff_exists.mp hframe
  obtain ⟨v, hv⟩ := Option.isSome_iff_exists.mp hl
  have hmem : (l, v) ∈ cumulateValues.list :=
    Assoc.mem_of_lookup ((cumulateValues.lookup l).trans hv)
  rw [getFoldedValues, foldlM_putRaw_eq_none hmem hnone]
  rfl

/-- With them, the value of a line is the sum of what counts for it. -/
theorem getFoldedValues_eq (h : fv.Framed frame cumulateType) :
    ∃ ret, fv.getFoldedValues editor frame cumulateType cumulateValues = some ret ∧
      (ret.map Prod.fst).Nodup ∧
      ∀ l, sample (ret.lookup l) =
        ((Spread.counted (collapsedLines editor) l).map fun k =>
          sample (fv.rawValue frame cumulateType k)).sum := by
  have hframed : ∀ e ∈ cumulateValues.list, frame.isSome → (fv.lineToFrame (e.1 - 1)).isSome := by
    intro e he hframe
    have hlookup := (Assoc.lookup_eq_some_iff cumulateValues.nodup).mpr he
    rw [cumulateValues.lookup] at hlookup
    exact h hframe e.1 (by rw [hlookup]; rfl)
  obtain ⟨ret₁, hfold₁, hnodup₁, hlookup₁⟩ :=
    @foldlM_putRaw fv frame _ cumulateValues.nodup hframed [] List.nodup_nil
  obtain ⟨ret₂, hfold₂, hnodup₂, hlookup₂⟩ :=
    foldlM_foldRegion editor.document editor.foldRegions editor.inside hnodup₁
  have hraw : (fun l => sample (ret₁.lookup l)) =
      fun l => sample (fv.rawValue frame cumulateType l) := by
    funext l
    rw [hlookup₁, cumulateValues.lookup, rawValue, List.lookup_nil, Option.or_none]
  refine ⟨ret₂, ?_, hnodup₂, fun l => ?_⟩
  · rw [getFoldedValues, hfold₁]
    exact hfold₂
  · rw [← Spread.foldr_spread, ← hraw]
    exact congrFun hlookup₂ l

end Result

/-! ### Outermost regions -/

/-- A collapsed region of the editor that is in no other one. -/
structure Outermost (editor : FoldedText) (region : FoldRegion) : Prop where
  mem : region ∈ editor.foldRegions
  collapsed : region.isExpanded = false
  outer : ∀ other ∈ editor.foldRegions, other.isExpanded = false →
    other.startOffset ≤ region.startOffset → region.endOffset ≤ other.endOffset → other = region

/-- What `getFoldedValues` is for: a line of an outermost region with values gets the sum of the
    raw values of the region, and any other line its own. -/
structure SumsOfRaw (editor : FoldedText) (raw folded : Int → Option Int64) : Prop where
  sums : ∀ region, Outermost editor region → Valued raw (linesOf editor.document region) →
    ∀ l ∈ linesOf editor.document region,
      folded l = some (rawSum raw (linesOf editor.document region))
  others : ∀ l, (∀ region, Outermost editor region → l ∈ linesOf editor.document region →
    ¬ Valued raw (linesOf editor.document region)) → folded l = raw l

/-- The values of an outermost region count once for its lines, or what counts on top of them
    adds up to 0; for the other lines no value of another line counts. -/
structure CountsOnce (editor : FoldedText) (raw : Int → Option Int64) : Prop where
  surplus : ∀ region, Outermost editor region → Valued raw (linesOf editor.document region) →
    ∀ l ∈ linesOf editor.document region,
      rawSum raw (Spread.surplus (collapsedLines editor) (linesOf editor.document region) l) = 0
  others : ∀ l, (∀ region, Outermost editor region → l ∈ linesOf editor.document region →
    ¬ Valued raw (linesOf editor.document region)) →
    ∀ k ∈ Spread.counted (collapsedLines editor) l, k ≠ l → raw k = none

section Outer

variable {editor : FoldedText} {region : FoldRegion}

theorem mem_collapsedLines {lines : List Int} :
    lines ∈ collapsedLines editor ↔ ∃ region ∈ editor.foldRegions,
      region.isExpanded = false ∧ linesOf editor.document region = lines := by
  simp only [collapsedLines, List.mem_map, List.mem_filter, Bool.not_eq_true', and_assoc]

theorem Outermost.mem_collapsedLines (h : Outermost editor region) :
    linesOf editor.document region ∈ collapsedLines editor :=
  Profile.mem_collapsedLines.mpr ⟨region, h.mem, h.collapsed, rfl⟩

/-- A region has the lines of the regions in it. -/
theorem linesOf_subset {other : FoldRegion} (hstart : other.startOffset ≤ region.startOffset)
    (hend : region.endOffset ≤ other.endOffset) {l : Int}
    (hl : l ∈ linesOf editor.document region) : l ∈ linesOf editor.document other := by
  have hfirst := @Lines.number_mono _ _ newline editor.document _ _ hstart
  have hlast := @Lines.number_mono _ _ newline editor.document _ _ hend
  rw [linesOf, mem_rangeClosed] at hl ⊢
  omega

/-- Every collapsed region is in an outermost one: the longest that it is in. -/
theorem exists_outermost (hmem : region ∈ editor.foldRegions)
    (hcollapsed : region.isExpanded = false) :
    ∃ outer, Outermost editor outer ∧ outer.startOffset ≤ region.startOffset ∧
      region.endOffset ≤ outer.endOffset := by
  -- the collapsed regions that it is in, by length
  let around := (editor.foldRegions.filter fun other => !other.isExpanded &&
    other.startOffset ≤ region.startOffset && region.endOffset ≤ other.endOffset).toFinset
  have haround : ∀ other, other ∈ around ↔ other ∈ editor.foldRegions ∧
      other.isExpanded = false ∧ other.startOffset ≤ region.startOffset ∧
      region.endOffset ≤ other.endOffset := by
    intro other
    simp only [around, List.mem_toFinset, List.mem_filter, Bool.and_eq_true,
      Bool.not_eq_true', decide_eq_true_eq, and_assoc]
  have hself : region ∈ around := (haround region).mpr ⟨hmem, hcollapsed, le_refl _, le_refl _⟩
  obtain ⟨outer, houter, hmax⟩ :=
    around.exists_max_image (fun other => other.endOffset - other.startOffset) ⟨region, hself⟩
  obtain ⟨hmem', hcollapsed', hstart, hend⟩ := (haround outer).mp houter
  refine ⟨outer, ⟨hmem', hcollapsed', fun other ho hc hs he => ?_⟩, hstart, hend⟩
  have hlen := hmax other
    ((haround other).mpr ⟨ho, hc, hs.trans hstart, hend.trans he⟩)
  have hinside := editor.inside outer hmem'
  have hinside' := editor.inside other ho
  have heqs : other.startOffset = outer.startOffset ∧ other.endOffset = outer.endOffset := by
    omega
  cases other
  cases outer
  simp only at heqs hc hcollapsed'
  rw [heqs.1, heqs.2, hc, hcollapsed']

/-- A line that is in no outermost region is in no collapsed one. -/
theorem counted_of_outside {l : Int}
    (h : ∀ region, Outermost editor region → l ∉ linesOf editor.document region) :
    Spread.counted (collapsedLines editor) l = [l] := by
  refine Spread.counted_of_notMem fun lines hlines hl => ?_
  obtain ⟨region, hmem, hcollapsed, rfl⟩ := mem_collapsedLines.mp hlines
  obtain ⟨outer, houter, hstart, hend⟩ := exists_outermost hmem hcollapsed
  exact h outer houter (linesOf_subset hstart hend hl)

variable {raw folded : Int → Option Int64}

/-- In an outermost region with values, the sum of the region and of the surplus. -/
theorem folded_of_outermost
    (hfolded : ∀ l, sample (folded l) =
      ((Spread.counted (collapsedLines editor) l).map fun k => sample (raw k)).sum)
    (houter : Outermost editor region) (hvalued : Valued raw (linesOf editor.document region))
    {l : Int} (hl : l ∈ linesOf editor.document region) :
    folded l = some (rawSum raw (linesOf editor.document region) +
      rawSum raw
        (Spread.surplus (collapsedLines editor) (linesOf editor.document region) l)) := by
  have hmem := houter.mem_collapsedLines
  have hcounted : Valued raw (Spread.counted (collapsedLines editor) l) := by
    obtain ⟨k, hk, hraw⟩ := hvalued
    exact ⟨k, (Spread.sublist_counted hmem hl).mem hk, hraw⟩
  have hsum : rawSum raw (Spread.counted (collapsedLines editor) l) =
      rawSum raw (linesOf editor.document region) + rawSum raw
        (Spread.surplus (collapsedLines editor) (linesOf editor.document region) l) :=
    Spread.sum_counted hmem hl fun k => (raw k).getD 0
  rw [← hsum]
  exact sample_inj.mp ((hfolded l).trans ((sum_samples raw _).1 hcounted))

/-- Elsewhere, the line's own value exactly when no other one counts. -/
theorem folded_eq_raw_iff
    (hfolded : ∀ l, sample (folded l) =
      ((Spread.counted (collapsedLines editor) l).map fun k => sample (raw k)).sum)
    {l : Int} (hother : ∀ region, Outermost editor region → l ∈ linesOf editor.document region →
      ¬ Valued raw (linesOf editor.document region)) :
    folded l = raw l ↔
      ∀ k ∈ Spread.counted (collapsedLines editor) l, k ≠ l → raw k = none := by
  by_cases hin : ∃ region, Outermost editor region ∧ l ∈ linesOf editor.document region
  · obtain ⟨region, houter, hl⟩ := hin
    have hraw : raw l = none := by
      cases hv : raw l with
      | none => rfl
      | some v => exact absurd ⟨l, hl, by simp [hv]⟩ (hother region houter hl)
    have hsum := sum_samples raw (Spread.counted (collapsedLines editor) l)
    rw [hraw]
    apply Iff.intro
    · intro hnone k hk _
      have hvalued : ¬ Valued raw (Spread.counted (collapsedLines editor) l) := by
        intro h
        have heq := (hfolded l).trans (hsum.1 h)
        rw [hnone] at heq
        cases sample_inj.mp heq
      cases hv : raw k with
      | none => rfl
      | some v => exact absurd ⟨k, hk, by simp [hv]⟩ hvalued
    · intro hnone
      have hvalued : ¬ Valued raw (Spread.counted (collapsedLines editor) l) := by
        rintro ⟨k, hk, hv⟩
        by_cases hkl : k = l
        · rw [hkl, hraw] at hv
          cases hv
        · rw [hnone k hk hkl] at hv
          cases hv
      exact sample_inj.mp ((hfolded l).trans (hsum.2 hvalued).1)
  · have hcounted := @counted_of_outside editor l fun region houter hl => hin ⟨region, houter, hl⟩
    have hsum := hfolded l
    rw [hcounted, List.map_singleton, List.sum_singleton] at hsum
    refine iff_of_true (sample_inj.mp hsum) fun k hk hkl => ?_
    rw [hcounted, List.mem_singleton] at hk
    exact absurd hk hkl

/-- The sums are those of the raw values exactly when each value counts once. -/
theorem sumsOfRaw_iff
    (hfolded : ∀ l, sample (folded l) =
      ((Spread.counted (collapsedLines editor) l).map fun k => sample (raw k)).sum) :
    SumsOfRaw editor raw folded ↔ CountsOnce editor raw := by
  have hzero : ∀ a b : Int64, some (a + b) = some a ↔ b = 0 := by
    intro a b
    rw [Option.some.injEq, Int64.add_eq_left]
  apply Iff.intro
  · intro h
    refine ⟨fun region houter hvalued l hl => ?_, fun l hother => ?_⟩
    · rw [← hzero, ← folded_of_outermost hfolded houter hvalued hl]
      exact h.sums region houter hvalued l hl
    · exact (folded_eq_raw_iff hfolded hother).mp (h.others l hother)
  · intro h
    refine ⟨fun region houter hvalued l hl => ?_, fun l hother => ?_⟩
    · rw [folded_of_outermost hfolded houter hvalued hl, hzero]
      exact h.surplus region houter hvalued l hl
    · exact (folded_eq_raw_iff hfolded hother).mpr (h.others l hother)

end Outer

/-- No value is counted twice where no two collapsed regions share a line. -/
theorem countsOnce_of_disjoint {editor : FoldedText}
    (h : (collapsedLines editor).Pairwise List.Disjoint) (raw : Int → Option Int64) :
    CountsOnce editor raw where
  surplus region houter _ l hl := by
    rw [Spread.surplus_of_pairwise_disjoint h houter.mem_collapsedLines hl]
    rfl
  others l hother k hk hkl := by
    by_cases hin : ∃ lines ∈ collapsedLines editor, l ∈ lines
    · obtain ⟨lines, hlines, hl⟩ := hin
      rw [Spread.counted_of_pairwise_disjoint h hlines hl] at hk
      obtain ⟨region, hmem, hcollapsed, rfl⟩ := mem_collapsedLines.mp hlines
      obtain ⟨outer, houter, hstart, hend⟩ := exists_outermost hmem hcollapsed
      have hvalued := hother outer houter (linesOf_subset hstart hend hl)
      cases hv : raw k with
      | none => rfl
      | some v => exact absurd ⟨k, linesOf_subset hstart hend hk, by simp [hv]⟩ hvalued
    · rw [Spread.counted_of_notMem fun lines hlines hl => hin ⟨lines, hlines, hl⟩,
        List.mem_singleton] at hk
      exact absurd hk hkl

/-- **Folded values.** The result is there and each line of an outermost region with values has
    the sum of the region's raw values exactly when, under a filter, every line with a value has
    a frame name, and the values count once. -/
theorem getFoldedValues_sumsOfRaw_iff (fv : FileValues) (editor : FoldedText)
    (frame : Option String) (cumulateType : CumulateType)
    (cumulateValues : Entries (fv.values cumulateType)) :
    (∃ ret, fv.getFoldedValues editor frame cumulateType cumulateValues = some ret ∧
      SumsOfRaw editor (fv.rawValue frame cumulateType) fun l => ret.lookup l) ↔
      fv.Framed frame cumulateType ∧ CountsOnce editor (fv.rawValue frame cumulateType) := by
  by_cases hframed : fv.Framed frame cumulateType
  · obtain ⟨ret, hret, -, hlookup⟩ :=
      @getFoldedValues_eq fv editor frame cumulateType cumulateValues hframed
    rw [hret, ← sumsOfRaw_iff hlookup]
    apply Iff.intro
    · rintro ⟨ret', hret', hsums⟩
      cases hret'
      exact ⟨hframed, hsums⟩
    · rintro ⟨-, hsums⟩
      exact ⟨ret, rfl, hsums⟩
  · rw [getFoldedValues_eq_none hframed]
    refine iff_of_false ?_ fun h => hframed h.1
    rintro ⟨ret, hret, -⟩
    cases hret

/-- Three lines, in two regions that are collapsed one inside the other. -/
def nestedRegions : FoldedText where
  document := [97, 10, 98, 10, 99]
  foldRegions := [⟨0, 5, false⟩, ⟨2, 5, false⟩]
  inside := by decide

/-- A sample for each of the three lines. -/
def threeSamples : List Op := [.update [(1, 1), (2, 1), (3, 1)] (some "f") 1 .ADD]

/-- **Counterexample.** The lines of the inner region count twice for those of the outer one. -/
theorem nested_regions_count_twice :
    ¬ ∀ (fv : FileValues) (editor : FoldedText) (frame : Option String)
      (cumulateType : CumulateType) (cumulateValues : Entries (fv.values cumulateType)),
      ∃ ret, fv.getFoldedValues editor frame cumulateType cumulateValues = some ret ∧
        SumsOfRaw editor (fv.rawValue frame cumulateType) fun l => ret.lookup l := by
  intro h
  obtain ⟨ret, hret, hsums⟩ :=
    h (run threeSamples) nestedRegions none .ADD (.ofRun threeSamples .ADD)
  have houter : Outermost nestedRegions ⟨0, 5, false⟩ := ⟨by decide, rfl, by decide⟩
  have hsum := hsums.sums _ houter ⟨0, by decide, by decide⟩ 0 (by decide)
  have hresult : (run threeSamples).getFoldedValues nestedRegions none .ADD
      (.ofRun threeSamples .ADD) = some [(0, 5), (1, 5), (2, 5)] := by decide
  rw [hresult] at hret
  cases hret
  revert hsum
  decide

end Reloadium.Profile
