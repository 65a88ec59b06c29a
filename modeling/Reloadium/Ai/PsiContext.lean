import Reloadium.Ai.ContextUtils
import Reloadium.Editor.Document

namespace Reloadium.Ai

open Reloadium.Lib JString
open Editor (Document)

/-!
# Ai — the line numbers in the seeds of prompts

Model of `PsiData` and of `getPromptSeed` in the contexts of an element of a Python file.  The
code of the element is numbered from the line of its *name* on, while its text starts with its
decorators.

* `PsiFile`, `PsiElement` — what the platform promises of a document and of an element in it;
* `PsiContext.getPromptSeed` — the seeds;
* `NumbersRight` — each line that is shown carries its number in the document;
* `numbersRight_iff` — just if the name is on the first line of the element.
-/

/-! ### Elements -/

/-- A file with its document: the document has newlines as its only line separators, and fits
    into an array. -/
structure PsiFile where
  document : Document
  no_return : carriageReturn ∉ document
  length_lt : document.length < 0x7FFFFFFF

/-- A `PyFunction` or a `PyClass`, by its offsets: `textOffset` is the one of the name. -/
structure PsiElement (file : PsiFile) where
  startOffset : Nat
  textOffset : Nat
  endOffset : Nat
  start_le : startOffset ≤ textOffset
  text_le : textOffset ≤ endOffset
  end_le : endOffset ≤ file.document.length

/-- `getText`, from the decorators to the end of the body. -/
def PsiElement.getText {file : PsiFile} (e : PsiElement file) : JString :=
  (file.document.take e.endOffset).drop e.startOffset

/-- `PsiData`. -/
structure PsiData where
  lineOffset : Int32
  text : JString

/-- The constructor of `PsiData`; `none` when the document refuses the offset. -/
def PsiData.new {file : PsiFile} (e : PsiElement file) : Option PsiData :=
  (file.document.getLineNumber e.textOffset).map fun line => {
    lineOffset := Int32.ofNat line, text := e.getText }

/-! ### The class of a method -/

/-- `%s` in `String.format`. -/
def formatted (s : Option JString) : JString := s.getD (ofString "null")

/-- What `extractClassBody` reads of a method: the texts of its decorators, of its parameters and
    of its annotation. -/
structure PyMethod where
  decoratorList : Option JString
  name : Option JString
  parameterList : JString
  annotation : Option JString

/-- What it reads of the class; `presentation` is the presentable text of its presentation, if
    it has one. -/
structure PyClass where
  presentation : Option (Option JString)
  name : Option JString
  decoratorList : Option (List JString)
  methods : List PyMethod

/-- `replaceAll(" +", " ")`, where `inRun` says that a space has just been kept. -/
def joinSpaces (inRun : Bool) : JString → JString
  | [] => []
  | c :: s =>
    if c = 0x20 then if inRun then joinSpaces true s else c :: joinSpaces true s
    else c :: joinSpaces false s

/-- `cleanCode`. -/
def cleanCode (code : JString) : JString :=
  -- a backslash is 0x5C
  joinSpaces false ((code.filter (· ≠ newline)).map fun c => if c = 0x5C then 0x20 else c)

/-- The line of a method. -/
def methodStub (m : PyMethod) : JString :=
  let methodIndent := ofString "    "
  let methodDecorators := match m.decoratorList with
    | none => []
    | some text => methodIndent ++ text
  let returnAnnotation := match m.annotation with
    | none => []
    | some text => cleanCode text
  methodDecorators ++ methodIndent ++ ofString "def " ++ formatted m.name ++
    cleanCode m.parameterList ++ returnAnnotation ++ ofString ": ...\n"

/-- `extractClassBody`. -/
def extractClassBody (klass : PyClass) : JString :=
  let header := match klass.presentation with
    | some text => text
    | none => klass.name
  let decorators := match klass.decoratorList with
    | none => []
    | some decorators => strip (decorators.flatMap (· ++ [newline]))
  (stripIndent (decorators ++ ofString "\nclass " ++ formatted header ++ ofString ":\n" ++
    klass.methods.flatMap methodStub ++ [newline])).strip

/-! ### Seeds -/

/-- The contexts of an element, with what their seeds show besides it. -/
inductive PsiContext where
  | Class
  | Function
  | Method (klass : PyClass)
  | Frame
  | FrameError (errorMsg : Option JString) (errorLine : Int32)

/-- The last line of the seed of a `FrameErrorContext`. -/
def errorText (errorMsg : Option JString) (errorLine : Int32) : JString :=
  ofString "Line " ++ ofInt32 errorLine ++ ofString " raised an error `" ++ formatted errorMsg ++
    ofString "`"

namespace PsiContext

/-- `getPromptSeed`; `none` when it throws. -/
def getPromptSeed (context : PsiContext) (data : PsiData) : Option JString := do
  let code ← getLineNumberedCode data.text data.lineOffset
  match context with
  | Method klass =>
    return (stripIndent (ofString "My method:" ++ [newline] ++ code ++ [newline] ++
      ofString "Class definition (method bodies not shown):" ++ [newline] ++
      extractClassBody klass ++ [newline])).strip
  | FrameError errorMsg errorLine => return code ++ errorText errorMsg errorLine
  | _ => return code

/-- The lines of a seed in front of the code. -/
def headerLines : PsiContext → Nat
  | Method _ => 1
  | _ => 0

end PsiContext

/-! ### The number of a line -/

/-- What is shown is `line`, but for whitespace at its ends, with the number `n`. -/
def Carries (shown : JString) (n : Nat) (line : JString) : Prop :=
  ∃ content : JString, content.strip = strip line ∧
    stripTrailing shown = stripTrailing (decimal n ++ ofString " : " ++ content)

variable {file : PsiFile}

/-- The 1-based number in the document of a line of the element. -/
def PsiElement.documentLine (e : PsiElement file) (cut : Lines.Cut UInt16) : Nat :=
  Lines.number newline file.document (e.startOffset + cut.before.length) + 1

/-- Each line of the element that is shown carries its number in the document, and so does the
    line that the seed reports an error for. -/
structure NumbersRight (e : PsiElement file) (context : PsiContext) (seed : JString) : Prop where
  rows : ∀ i < (codeLines e.getText).length, ∃ cut shown,
    Lines.cut newline e.getText i = some cut ∧
      (seed.splitOn newline)[context.headerLines + i]? = some shown ∧
      Carries shown (e.documentLine cut) cut.line
  error : ∀ errorMsg errorLine, context = .FrameError errorMsg errorLine →
    errorText errorMsg errorLine <:+ seed ∧
      ∀ i < (codeLines e.getText).length, ∀ cut, Lines.cut newline e.getText i = some cut →
        errorLine.toInt = e.documentLine cut →
          ∃ shown, (seed.splitOn newline)[i]? = some shown ∧
            Carries shown errorLine.toInt.toNat cut.line

/-! ### Lines of an element -/

/-- The text of an element starts at its start. -/
theorem prefix_getText (e : PsiElement file) : e.getText <+: file.document.drop e.startOffset := by
  rw [PsiElement.getText, List.drop_take]
  exact List.take_prefix _ _

theorem return_notMem_getText (e : PsiElement file) : carriageReturn ∉ e.getText :=
  fun h => file.no_return (List.mem_of_mem_take (List.mem_of_mem_drop h))

/-- The lines of an element are on the lines of the document from its start on. -/
theorem documentLine_eq (e : PsiElement file) {i : Nat} {cut : Lines.Cut UInt16}
    (h : Lines.cut newline e.getText i = some cut) :
    e.documentLine cut = Lines.number newline file.document e.startOffset + i + 1 := by
  have hcut := Lines.isCut_of_cut h
  have hbefore : (file.document.drop e.startOffset).take cut.before.length = cut.before := by
    have hbegins : cut.before <+: file.document.drop e.startOffset := by
      refine List.IsPrefix.trans ?_ (prefix_getText e)
      rw [← hcut.append, List.append_assoc]
      exact List.prefix_append _ _
    exact (List.prefix_iff_eq_take.mp hbegins).symm
  rw [PsiElement.documentLine, Lines.number_add, hbefore, hcut.count]

/-- A line that is shown is the one of the element, but for whitespace at its ends. -/
theorem exists_cut (e : PsiElement file) {i : Nat} (hi : i < (codeLines e.getText).length) :
    ∃ cut, Lines.cut newline e.getText i = some cut ∧
      ((codeLines e.getText)[i]).strip = strip cut.line := by
  obtain ⟨n, hbegins⟩ := prefix_split_stripIndent (return_notMem_getText e)
  have hget := hbegins.getElem hi
  have hlt : i < (e.getText.splitOn newline).length := by
    have hle := hbegins.length_le
    rw [List.length_map] at hle
    exact Nat.lt_of_lt_of_le hi hle
  have hline := Lines.map_line_cut newline e.getText i
  rw [List.getElem?_eq_getElem hlt] at hline
  obtain ⟨cut, hcut, hline⟩ := Option.map_eq_some_iff.mp hline
  refine ⟨cut, hcut, ?_⟩
  rw [List.getElem_map] at hget
  rw [hline, ← strip_stripLine n (e.getText.splitOn newline)[i]]
  exact congrArg strip hget

/-- Numbers of lines are `int`s. -/
theorem number_lt (file : PsiFile) (offset : Nat) :
    Lines.number newline file.document offset + 1 < 2 ^ 31 := by
  have hcount := List.count_le_length (a := newline) (l := file.document.take offset)
  have hlen := List.length_take_le' offset file.document
  have hlt := file.length_lt
  rw [Lines.number]
  omega

/-! ### The rows of a seed -/

theorem getElem?_rows (firstLine : Int32) (i j : Nat) (ls : List JString) :
    (rows firstLine i ls)[j]? = ls[j]?.map (numberedRow (lineNumber firstLine (i + j))) := by
  induction ls generalizing i j with
  | nil => rfl
  | cons l ls ih =>
    cases j with
    | zero => rfl
    | succ j =>
      rw [rows, List.getElem?_cons_succ, List.getElem?_cons_succ, ih, Nat.add_right_comm,
        Nat.add_assoc]

/-- A number and a line have no line separator. -/
theorem numbered_isLine {line : Int32} {l : JString} (h : newline ∉ l ∧ carriageReturn ∉ l) :
    newline ∉ numberedRow line l ∧ carriageReturn ∉ numberedRow line l := by
  have hsep {c : UInt16} (hc : c = newline ∨ c = carriageReturn) (hl : c ∉ l) :
      c ∉ numberedRow line l := by
    rw [numbered_eq]
    intro hmem
    rcases List.mem_append.mp hmem with hmem | hmem
    · have hdigit : isDigit c = true ∨ c = 45 := by
        rw [ofInt32] at hmem
        split at hmem
        · exact Or.inl (isDigit_of_mem_decimal hmem)
        · exact (List.mem_cons.mp hmem).symm.imp_left isDigit_of_mem_decimal
      rcases hc with rfl | rfl <;> rcases hdigit with h | h <;> revert h <;> decide
    · simp only [List.mem_cons, hl, or_false] at hmem
      rcases hc with rfl | rfl <;> revert hmem <;> decide
  exact ⟨hsep (Or.inl rfl) h.1, hsep (Or.inr rfl) h.2⟩

theorem rows_isLine (firstLine : Int32) {ls : List JString}
    (h : ∀ l ∈ ls, newline ∉ l ∧ carriageReturn ∉ l) (i : Nat) :
    ∀ row ∈ rows firstLine i ls, newline ∉ row ∧ carriageReturn ∉ row := by
  intro row hrow
  obtain ⟨j, hj⟩ := List.mem_iff_getElem?.mp hrow
  rw [getElem?_rows] at hj
  obtain ⟨l, hl, rfl⟩ := Option.map_eq_some_iff.mp hj
  exact numbered_isLine (h l (List.mem_of_getElem? hl))

theorem codeLines_isLine (e : PsiElement file) :
    ∀ l ∈ codeLines e.getText, newline ∉ l ∧ carriageReturn ∉ l := by
  intro l hl
  obtain ⟨n, hbegins⟩ := prefix_split_stripIndent (return_notMem_getText e)
  obtain ⟨line, hline, rfl⟩ := List.mem_map.mp (hbegins.subset hl)
  refine ⟨fun hmem => ?_, fun hmem => ?_⟩
  · exact (mem_of_mem_splitOn hline (mem_of_mem_stripLine hmem)).2 rfl
  · exact return_notMem_getText e (mem_of_mem_splitOn hline (mem_of_mem_stripLine hmem)).1

/-- The rows are lines of the seed of a `MethodContext`, after one for the header. -/
theorem method_seed {ls : List JString} (hls : ∀ l ∈ ls, newline ∉ l ∧ carriageReturn ∉ l)
    (body : JString) : ∃ after,
      strip (stripIndent (ofString "My method:" ++ [newline] ++ ls.flatMap (· ++ [newline]) ++
        [newline] ++ ofString "Class definition (method bodies not shown):" ++ [newline] ++ body ++
          [newline])) =
        (ofString "My method:" :: ls.map stripTrailing).flatMap (· ++ [newline]) ++ after := by
  have hheader : newline ∉ ofString "My method:" ∧ carriageReturn ∉ ofString "My method:" ∧
      stripTrailing (ofString "My method:") = ofString "My method:" ∧
      isWhitespace 77 = false ∧ (ofString "My method:").head? = some 77 := by decide
  have hclass : newline ∉ ofString "Class definition (method bodies not shown):" ∧
      carriageReturn ∉ ofString "Class definition (method bodies not shown):" ∧
      isBlank (stripTrailing (ofString "Class definition (method bodies not shown):")) = false := by
    decide
  generalize ofString "My method:" = header at hheader ⊢
  generalize ofString "Class definition (method bodies not shown):" = definition at hclass ⊢
  have htext : header ++ [newline] ++ ls.flatMap (· ++ [newline]) ++ [newline] ++ definition ++
      [newline] ++ body = (header :: ls ++ [[], definition]).flatMap (· ++ [newline]) ++ body := by
    simp
  have hseparate : ∀ l ∈ header :: ls ++ [[], definition], newline ∉ l ∧ carriageReturn ∉ l := by
    intro l hl
    simp only [List.cons_append, List.mem_cons, List.mem_append, List.not_mem_nil, or_false] at hl
    rcases hl with rfl | hl | rfl | rfl
    · exact ⟨hheader.1, hheader.2.1⟩
    · exact hls l hl
    · exact ⟨List.not_mem_nil, List.not_mem_nil⟩
    · exact ⟨hclass.1, hclass.2.1⟩
  rw [htext, stripIndent_of_newline, List.append_assoc, lines_flatMap hseparate, List.map_append,
    List.map_append, List.map_cons, hheader.2.2.1, List.flatMap_append, List.flatMap_append,
    List.append_assoc]
  have hhead : ((header :: ls.map stripTrailing).flatMap (· ++ [newline])).head? = some 77 := by
    rw [List.flatMap_cons, List.append_assoc, List.head?_append, hheader.2.2.2.2]
    rfl
  refine ⟨_, strip_append ?_ ?_ ?_⟩
  · rw [hhead]
    rintro c ⟨⟩
    exact hheader.2.2.2.1
  · intro hnil
    rw [hnil] at hhead
    cases hhead
  · simp only [List.map_cons, List.map_nil, List.flatMap_cons, List.flatMap_nil, isBlank_append,
      hclass.2.2, Bool.and_false, Bool.false_and]

/-- The rows are lines of the seed, in a `MethodContext` without whitespace at their ends. -/
theorem exists_seed (e : PsiElement file) (context : PsiContext) (line : Nat)
    (hlines : 2 ≤ (codeLines e.getText).length) :
    ∃ seed before shown after,
      context.getPromptSeed { lineOffset := Int32.ofNat line, text := e.getText } = some seed ∧
      seed.splitOn newline = before ++ shown ++ after ∧
      before.length = context.headerLines ∧
      shown.map stripTrailing =
        (rows (Int32.ofNat line) 0 (codeLines e.getText)).map stripTrailing ∧
      ∀ errorMsg errorLine, context = .FrameError errorMsg errorLine →
        errorText errorMsg errorLine <:+ seed := by
  have hrows := rows_isLine (Int32.ofNat line) (codeLines_isLine e) 0
  have hcode := getLineNumberedCode_of_lines hlines (Int32.ofNat line)
  generalize rows (Int32.ofNat line) 0 (codeLines e.getText) = shown at hrows hcode ⊢
  have hplain := splitOn_flatMap (fun row hrow => (hrows row hrow).1) []
  rw [List.append_nil] at hplain
  cases context with
  | Method klass =>
    obtain ⟨after, hafter⟩ := method_seed hrows (extractClassBody klass)
    have htrailing : ∀ l ∈ ofString "My method:" :: shown.map stripTrailing, newline ∉ l := by
      refine List.forall_mem_cons.mpr ⟨by decide, ?_⟩
      simp only [List.forall_mem_map]
      exact fun row hrow hmem => (hrows row hrow).1 ((prefix_stripTrailing row).subset hmem)
    refine ⟨_, [ofString "My method:"], shown.map stripTrailing, after.splitOn newline, ?_,
      splitOn_flatMap htrailing after, rfl, ?_, nofun⟩
    · rw [PsiContext.getPromptSeed, hcode]
      exact congrArg some hafter
    · rw [List.map_map]
      exact congrArg (List.map · shown) (funext stripTrailing_idem)
  | FrameError errorMsg errorLine =>
    refine ⟨_, [], shown, _, ?_,
      splitOn_flatMap (fun row hrow => (hrows row hrow).1) (errorText errorMsg errorLine), rfl, rfl, ?_⟩
    · rw [PsiContext.getPromptSeed, hcode]
      rfl
    · rintro _ _ ⟨⟩
      exact List.suffix_append _ _
  | _ =>
    refine ⟨_, [], shown, _, ?_, hplain, rfl, rfl, nofun⟩
    rw [PsiContext.getPromptSeed, hcode]
    rfl

/-! ### Numbers -/

/-- A row that is shown carries the number `n` just if it is numbered `n`. -/
theorem carries_iff {shown line content : JString} {number : Int32} {k n : Nat}
    (hnumber : number.toInt = k) (hcontent : strip content = strip line)
    (hshown : stripTrailing shown = stripTrailing (numberedRow number content)) :
    Carries shown n line ↔ n = k := by
  have hrow (k : Nat) (content : JString) : decimal k ++ ofString " : " ++ content =
      decimal k ++ 0x20 :: 0x3A :: 0x20 :: content := by
    have hsep : ofString " : " = [0x20, 0x3A, 0x20] := by decide
    rw [hsep, List.append_assoc]
    rfl
  have hdecimal : numberedRow number content = decimal k ++ ofString " : " ++ content := by
    rw [hrow, numbered_eq, ofInt32, if_pos (by omega), hnumber, Int.toNat_natCast]
  -- the number is in front of the first space
  have hdigits (k : Nat) (content : JString) :
      (stripTrailing (decimal k ++ ofString " : " ++ content)).takeWhile isDigit = decimal k := by
    have hcolon : isBlank (0x3A :: 0x20 :: content) = false := isBlank_cons_of_not (by decide) _
    rw [hrow, List.append_cons, stripTrailing_append _ hcolon, List.append_assoc,
      List.takeWhile_append_of_pos fun c hc => isDigit_of_mem_decimal hc, List.singleton_append,
      List.takeWhile_cons_of_neg (by decide), List.append_nil]
  constructor
  · rintro ⟨content', -, hcarries⟩
    rw [hshown, hdecimal] at hcarries
    have heq := congrArg (List.takeWhile isDigit) hcarries
    rw [hdigits, hdigits] at heq
    exact (decimal_inj heq).symm
  · rintro rfl
    exact ⟨content, hcontent, by rw [hshown, hdecimal]⟩

/-- **Line numbers in prompts.** -/
theorem numbersRight_iff (file : PsiFile) (e : PsiElement file) (context : PsiContext)
    (hlines : 2 ≤ (codeLines e.getText).length) :
    ∃ data seed, PsiData.new e = some data ∧ context.getPromptSeed data = some seed ∧
      (NumbersRight e context seed ↔
        Lines.number newline file.document e.textOffset =
          Lines.number newline file.document e.startOffset) := by
  have hoffset : file.document.getLineNumber e.textOffset =
      some (Lines.number newline file.document e.textOffset) :=
    if_pos (Nat.le_trans e.text_le e.end_le)
  obtain ⟨seed, before, shown, after, hseed, hsplit, hheader, hshown, herror⟩ :=
    exists_seed e context (Lines.number newline file.document e.textOffset) hlines
  refine ⟨_, seed, by rw [PsiData.new, hoffset]; rfl, hseed, ?_⟩
  have htextLine := number_lt file e.textOffset
  -- the row of a line that is shown
  have hrow {i : Nat} (hi : i < (codeLines e.getText).length) :
      ∃ cut row, Lines.cut newline e.getText i = some cut ∧
        (seed.splitOn newline)[context.headerLines + i]? = some row ∧
        (Lines.number newline file.document e.textOffset + i + 1 < 2 ^ 31 → ∀ n,
          Carries row n cut.line ↔
            n = Lines.number newline file.document e.textOffset + i + 1) := by
    obtain ⟨cut, hcut, hstrip⟩ := exists_cut e hi
    have hget := congrArg (·[i]?) hshown
    simp only [List.getElem?_map, getElem?_rows, List.getElem?_eq_getElem hi, Option.map_some,
      Nat.zero_add] at hget
    obtain ⟨row, hrow, hrowEnd⟩ := Option.map_eq_some_iff.mp hget
    refine ⟨cut, row, hcut, ?_, fun hlt n => carries_iff ?_ hstrip hrowEnd⟩
    · rw [hsplit, ← hheader, List.append_assoc, List.getElem?_append_right (by omega),
        Nat.add_sub_cancel_left, List.getElem?_append_left (List.getElem?_eq_some_iff.mp hrow).1,
        hrow]
    · have hfirst := Int32.toInt_ofNat_of_lt (Nat.lt_of_succ_lt htextLine)
      rw [toInt_lineNumber_of_lt (by omega) (by omega), hfirst]
      omega
  constructor
  · intro hright
    -- the first line decides
    obtain ⟨cut, shown, hcut, hseedLine, hcarries⟩ := hright.rows 0 (by omega)
    obtain ⟨cut', row, hcut', hseedLine', hiff⟩ := hrow (i := 0) (by omega)
    obtain rfl : cut' = cut := Option.some.inj (hcut'.symm.trans hcut)
    obtain rfl : row = shown := Option.some.inj (hseedLine'.symm.trans hseedLine)
    have hnumber := (hiff htextLine _).mp hcarries
    rw [documentLine_eq e hcut] at hnumber
    omega
  · intro heq
    have hcarries {i : Nat} (hi : i < (codeLines e.getText).length) : ∃ cut shown,
        Lines.cut newline e.getText i = some cut ∧
          (seed.splitOn newline)[context.headerLines + i]? = some shown ∧
          Carries shown (e.documentLine cut) cut.line := by
      obtain ⟨cut, row, hcut, hseedLine, hiff⟩ := hrow hi
      have hnumber := documentLine_eq e hcut
      have hlt := number_lt file (e.startOffset + cut.before.length)
      rw [PsiElement.documentLine] at hnumber
      exact ⟨cut, row, hcut, hseedLine, (hiff (by omega) _).mpr (by
        rw [PsiElement.documentLine]
        omega)⟩
    refine ⟨fun i hi => hcarries hi, fun errorMsg errorLine hcontext => ⟨herror _ _ hcontext, ?_⟩⟩
    intro i hi cut hcut hline
    obtain ⟨cut', shown, hcut', hseedLine, hshown⟩ := hcarries hi
    obtain rfl : cut' = cut := Option.some.inj (hcut'.symm.trans hcut)
    have hzero : context.headerLines + i = i := by
      rw [hcontext]
      exact Nat.zero_add i
    rw [hzero] at hseedLine
    rw [hline, Int.toNat_natCast]
    exact ⟨shown, hseedLine, hshown⟩

/-! ### A decorated function -/

/-- A function with a decorator, on its own. -/
def decoratedFile : PsiFile where
  document := ofString "@dec\ndef f():\n    pass"
  no_return := by decide
  length_lt := by decide

/-- The function, from its decorator on, and without it. -/
def decorated (startOffset : Nat) (h : startOffset ≤ 9) : PsiElement decoratedFile where
  startOffset := startOffset
  textOffset := 9
  endOffset := 22
  start_le := h
  text_le := by decide
  end_le := by decide

@[inherit_doc decorated]
theorem numbersRight_plain :
    ∃ data seed, PsiData.new (decorated 5 (by decide)) = some data ∧
      (PsiContext.FrameError (some (ofString "oops")) 3).getPromptSeed data = some seed ∧
      (NumbersRight (decorated 5 (by decide)) (.FrameError (some (ofString "oops")) 3) seed ↔
        Lines.number newline decoratedFile.document 9 =
          Lines.number newline decoratedFile.document 5) :=
  numbersRight_iff decoratedFile (decorated 5 (by decide)) (.FrameError (some (ofString "oops")) 3)
    (by decide)

/-- The decorator is shown with the number of the line below it. -/
theorem decorator_shifts_numbers :
    ∃ data seed, PsiData.new (decorated 0 (by decide)) = some data ∧
      PsiContext.Function.getPromptSeed data = some seed ∧
      seed = ofString "2 : @dec\n3 : def f():\n4 :     pass\n" ∧
      ¬ NumbersRight (decorated 0 (by decide)) .Function seed := by
  have hseed : PsiContext.Function.getPromptSeed
      { lineOffset := Int32.ofNat 1, text := (decorated 0 (by decide)).getText } =
        some (ofString "2 : @dec\n3 : def f():\n4 :     pass\n") := by decide
  refine ⟨{ lineOffset := Int32.ofNat 1, text := (decorated 0 (by decide)).getText }, _, ?_, hseed,
    rfl, fun h => ?_⟩
  · have hline : decoratedFile.document.getLineNumber 9 = some 1 := by decide
    exact congrArg (Option.map _) hline
  · obtain ⟨cut, shown, hcut, hshown, hcarries⟩ := h.rows 0 (by decide)
    have hfirst : (ofString "2 : @dec\n3 : def f():\n4 :     pass\n").splitOn newline =
        [numberedRow 2 (ofString "@dec"), ofString "3 : def f():", ofString "4 :     pass", []] := by
      decide
    have hcut' : (Lines.cut newline (decorated 0 (by decide)).getText 0).map
        (fun cut => (cut.before, cut.line)) = some ([], ofString "@dec") := by decide
    rw [hcut] at hcut'
    simp only [Option.map_some, Option.some.injEq, Prod.mk.injEq] at hcut'
    obtain rfl : numberedRow 2 (ofString "@dec") = shown := by
      rw [hfirst] at hshown
      exact Option.some.inj hshown
    have hnumber := (carries_iff (k := 2) rfl (congrArg strip hcut'.2.symm) rfl).mp hcarries
    rw [PsiElement.documentLine, hcut'.1] at hnumber
    revert hnumber
    decide

end Reloadium.Ai
