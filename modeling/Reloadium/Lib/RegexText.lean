import Reloadium.Lib.Regex

namespace Reloadium.Lib.RegexText

open Regex

/-!
# Library — the texts of regular expressions

A reader for a part of the syntax of Python's `re`: letters and escaped letters, `.`, classes
with ranges, groups, `(?s:…)`, `(?<=…)`, `|`, `*`, `+`, `?`, `\A` and `\Z`.  It reads letter by
letter, with the open groups on a stack; a text outside this part is refused, as is a class with a
descending range.

* `Writes d w o` — the text `w` adds the items `o` to the group that is open, or is refused;
* `Writes.append` — texts one after the other;
* `writes_escape`, `writes_class`, `Writes.star`, `Writes.group`, … — the texts of each form;
* `compile_eq`, `isMatch_whole_iff` — the text of a whole expression.
-/

/-! ### Classes -/

/-- A letter of a class, as it stands or after a backslash. -/
inductive ClassLetter
  | raw (c : Char)
  | escaped (c : Char)

def ClassLetter.char : ClassLetter → Char
  | raw c => c
  | escaped c => c

/-- The ranges of a class, a letter alone being one from itself to itself. -/
def ranges : List ClassLetter → Option (List (Char × Char))
  | [] => some []
  | lo :: .raw '-' :: hi :: cs =>
    if lo.char ≤ hi.char then (ranges cs).map ((lo.char, hi.char) :: ·) else none
  | c :: cs => (ranges cs).map ((c.char, c.char) :: ·)

/-- A letter in one of the ranges, or in none. -/
def inClass (neg : Bool) (rs : List (Char × Char)) (c : Char) : Bool :=
  (rs.any fun (lo, hi) => lo ≤ c && c ≤ hi) != neg

/-! ### The reader -/

inductive Kind
  | top
  | group
  | behind
deriving DecidableEq

/-- What has been read of an open group: the alternatives before the last `|`, and the items after
it with whether they may be repeated. -/
structure Frame where
  kind : Kind
  dotall : Bool
  alts : Option (Regex Char)
  items : List (Regex Char × Bool)

inductive Mode
  | plain
  | escape
  /-- After `(`. -/
  | opening
  /-- After `(?`. -/
  | extension
  /-- After `(?<`. -/
  | looking
  /-- After `(?s`. -/
  | flag
  /-- After `[`. -/
  | classStart
  | inClass (neg : Bool) (cs : List ClassLetter)
  | inClassEscape (neg : Bool) (cs : List ClassLetter)

/-- The frame of the innermost group, and those around it. -/
structure State where
  mode : Mode
  frame : Frame
  outer : List Frame

/-- The items one after the other. -/
def seqOf (items : List (Regex Char × Bool)) : Regex Char :=
  items.foldr (fun item r => seq item.1 r) empty

namespace Frame

def add (f : Frame) (items : List (Regex Char × Bool)) : Frame :=
  { f with items := f.items ++ items }

def value (f : Frame) : Regex Char :=
  match f.alts with
  | none => seqOf f.items
  | some r => alt r (seqOf f.items)

/-- A group of which nothing has been read. -/
def fresh (kind : Kind) (dotall : Bool) : Frame where
  kind := kind
  dotall := dotall
  alts := none
  items := []

end Frame

/-- ASCII letters and digits, which mean something else after a backslash. -/
def isEscapeName (c : Char) : Bool := c.isAlphanum

/-- How many letters a match has, when that is the same for all. -/
def width : Regex Char → Option Nat
  | .empty => some 0
  | .letter _ => some 1
  | .seq r s => do return (← width r) + (← width s)
  | .alt r s => do
    let n ← width r
    let m ← width s
    if n = m then some n else none
  | .star _ => none
  | .behind _ => some 0
  | .start => some 0
  | .stop => some 0

namespace State

def enter (x : State) (mode : Mode) : State := { x with mode := mode }

def add (x : State) (items : List (Regex Char × Bool)) : State :=
  { x with frame := x.frame.add items }

/-- The last item of the open group repeated. -/
def repeated (x : State) (f : Regex Char → Regex Char) : Option State :=
  match x.frame.items.getLast? with
  | some (r, true) =>
    some { x with frame := { x.frame with items := x.frame.items.dropLast ++ [(f r, false)] } }
  | _ => none

/-- The innermost group closed. -/
def close (x : State) : Option State :=
  match x.outer with
  | [] => none
  | f :: outer =>
    match x.frame.kind with
    | .top => none
    | .group => some { mode := .plain, frame := f.add [(x.frame.value, true)], outer := outer }
    | .behind =>
      (width x.frame.value).map fun _ =>
        { mode := .plain, frame := f.add [(.behind x.frame.value, true)], outer := outer }

def opened (x : State) (kind : Kind) (dotall : Bool) : State where
  mode := .plain
  frame := Frame.fresh kind dotall
  outer := x.frame :: x.outer

/-- A letter outside classes and escapes. -/
def plain (x : State) (c : Char) : Option State :=
  if c = '\\' then some (x.enter .escape)
  else if c = '[' then some (x.enter .classStart)
  else if c = '(' then some (x.enter .opening)
  else if c = ')' then x.close
  else if c = '|' then
    some { x with frame := { x.frame with alts := some x.frame.value, items := [] } }
  else if c = '*' then x.repeated .star
  else if c = '+' then x.repeated .plus
  else if c = '?' then x.repeated .opt
  else if c = '.' then
    let dotall := x.frame.dotall
    some (x.add [(.letter fun d => dotall || d != '\n', true)])
  -- counted repetitions, and the ends of lines
  else if c = '{' ∨ c = '^' ∨ c = '$' then none
  else some (x.add [(.letter (· == c), true)])

/-- A letter of a class; a bracket does not close an empty one. -/
def classLetter (x : State) (neg : Bool) (cs : List ClassLetter) (c : Char) : Option State :=
  if c = '\\' then some (x.enter (.inClassEscape neg cs))
  else if c = ']' ∧ cs ≠ [] then
    (ranges cs).map fun rs => (x.enter .plain).add [(.letter (inClass neg rs), true)]
  else some (x.enter (.inClass neg (cs ++ [.raw c])))

def step (x : State) (c : Char) : Option State :=
  match x.mode with
  | .plain => x.plain c
  | .escape =>
    if c = 'A' then some ((x.enter .plain).add [(.start, false)])
    else if c = 'Z' then some ((x.enter .plain).add [(.stop, false)])
    else if isEscapeName c then none
    else some ((x.enter .plain).add [(.letter (· == c), true)])
  | .opening =>
    if c = '?' then some (x.enter .extension)
    else (x.opened .group x.frame.dotall).plain c
  | .extension =>
    if c = '<' then some (x.enter .looking)
    else if c = 's' then some (x.enter .flag)
    else none
  | .looking => if c = '=' then some (x.opened .behind x.frame.dotall) else none
  | .flag => if c = ':' then some (x.opened .group true) else none
  | .classStart =>
    if c = '^' then some (x.enter (.inClass true [])) else x.classLetter false [] c
  | .inClass neg cs => x.classLetter neg cs c
  | .inClassEscape neg cs =>
    if isEscapeName c then none else some (x.enter (.inClass neg (cs ++ [.escaped c])))

def reads (x : State) (w : List Char) : Option State := w.foldlM step x

def init : State where
  mode := .plain
  frame := Frame.fresh .top false
  outer := []

/-- The expression that has been read, when nothing is open. -/
def result (x : State) : Option (Regex Char) :=
  match x.mode, x.outer with
  | .plain, [] => some x.frame.value
  | _, _ => none

end State

/-- The regular expression of a text. -/
def compile (w : List Char) : Option (Regex Char) := (State.init.reads w).bind State.result

/-! ### What a text writes -/

variable {d neg : Bool} {w w' : List Char} {o o' : Option (List (Regex Char × Bool))}
  {r : Regex Char} {c : Char} {f : Regex Char → Regex Char} {x : State}

/-- The text `w` adds the items `o` to the group that is open, or is refused. -/
def Writes (d : Bool) (w : List Char) (o : Option (List (Regex Char × Bool))) : Prop :=
  ∀ x : State, x.mode = .plain → x.frame.dotall = d → x.reads w = o.map x.add

theorem reads_append (x : State) (w w' : List Char) :
    x.reads (w ++ w') = (x.reads w).bind (·.reads w') := List.foldlM_append

theorem reads_cons (x : State) (c : Char) (w : List Char) :
    x.reads (c :: w) = (x.step c).bind (·.reads w) := List.foldlM_cons

@[simp] theorem reads_nil (x : State) : x.reads [] = some x := rfl

theorem add_add (x : State) (is js : List (Regex Char × Bool)) :
    (x.add is).add js = x.add (is ++ js) := by
  simp only [State.add, Frame.add, List.append_assoc]

theorem writes_nil : Writes d [] (some []) := by
  intro x _ _
  rw [reads_nil, Option.map_some, State.add, Frame.add, List.append_nil]

theorem Writes.append (h : Writes d w o) (h' : Writes d w' o') :
    Writes d (w ++ w') (o.bind fun is => o'.map (is ++ ·)) := by
  intro x hmode hd
  rw [reads_append, h x hmode hd]
  cases o with
  | none => rfl
  | some is =>
    rw [Option.map_some, Option.bind_some, Option.bind_some, h' (x.add is) hmode hd]
    cases o' with
    | none => rfl
    | some js => rw [Option.map_some, Option.map_some, Option.map_some, add_add]

theorem step_plain (h : x.mode = .plain) (c : Char) : x.step c = x.plain c := by
  rw [State.step, h]

/-- A repetition applies to the item before it. -/
theorem Writes.repeated (h : Writes d w (some [(r, true)]))
    (hstep : ∀ x : State, x.plain c = x.repeated f) :
    Writes d (w ++ [c]) (some [(f r, false)]) := by
  intro x hmode hd
  rw [reads_append, h x hmode hd, Option.map_some, Option.bind_some, reads_cons,
    step_plain (x := x.add [(r, true)]) hmode, hstep]
  simp only [State.repeated, State.add, Frame.add, List.getLast?_append, List.getLast?_singleton,
    Option.some_or, List.dropLast_concat, Option.bind_some, reads_nil, Option.map_some]

theorem Writes.star (h : Writes d w (some [(r, true)])) :
    Writes d (w ++ ['*']) (some [(.star r, false)]) :=
  h.repeated fun _ => rfl

theorem Writes.plus (h : Writes d w (some [(r, true)])) :
    Writes d (w ++ ['+']) (some [(.plus r, false)]) :=
  h.repeated fun _ => rfl

theorem Writes.opt (h : Writes d w (some [(r, true)])) :
    Writes d (w ++ ['?']) (some [(.opt r, false)]) :=
  h.repeated fun _ => rfl

/-- Any letter, when line ends are letters too. -/
theorem writes_dot : Writes true ['.'] (some [(.letter fun _ => true, true)]) := by
  intro x hmode hd
  rw [reads_cons, step_plain hmode]
  simp [State.plain, hd]

/-! ### Escaped letters -/

/-- The letters that `re.escape` puts a backslash before. -/
def special : List Char := "()[]\x7b\x7d?*+-|^$\\.&~# \t\n\r\x0b\x0c".toList

/-- `re.escape` -/
def escape (c : Char) : List Char := if c ∈ special then ['\\', c] else [c]

theorem enter_enter (hmode : x.mode = .plain) (mode : Mode) : (x.enter mode).enter .plain = x := by
  rw [State.enter, State.enter, ← hmode]

theorem not_isEscapeName_of_special (c : Char) (hc : c ∈ special) :
    c ≠ 'A' ∧ c ≠ 'Z' ∧ isEscapeName c = false := by
  have hall : special.all (fun c => c != 'A' && c != 'Z' && !isEscapeName c) = true := by decide
  have hletter := List.all_eq_true.mp hall c hc
  rw [Bool.and_eq_true, Bool.and_eq_true, bne_iff_ne, bne_iff_ne, Bool.not_eq_true'] at hletter
  exact ⟨hletter.1.1, hletter.1.2, hletter.2⟩

/-- A letter with no meaning of its own. -/
theorem plain_of_not_special (hc : c ∉ special) (x : State) :
    x.plain c = some (x.add [(.letter (· == c), true)]) := by
  have hne : ∀ c' ∈ special, c ≠ c' := fun c' hc' heq => hc (heq ▸ hc')
  have hlast : ¬ (c = '{' ∨ c = '^' ∨ c = '$') := by
    rintro (h | h | h)
    · exact hne '{' (by decide) h
    · exact hne '^' (by decide) h
    · exact hne '$' (by decide) h
  rw [State.plain, if_neg (hne '\\' (by decide)), if_neg (hne '[' (by decide)),
    if_neg (hne '(' (by decide)), if_neg (hne ')' (by decide)), if_neg (hne '|' (by decide)),
    if_neg (hne '*' (by decide)), if_neg (hne '+' (by decide)), if_neg (hne '?' (by decide)),
    if_neg (hne '.' (by decide)), if_neg hlast]

/-- **`re.escape`.**  An escaped letter matches that letter. -/
theorem writes_escape (c : Char) : Writes d (escape c) (some [(.letter (· == c), true)]) := by
  intro x hmode _
  rw [escape]
  split
  case isTrue hc =>
    obtain ⟨hA, hZ, hname⟩ := not_isEscapeName_of_special c hc
    have hescape : (x.enter .escape).step c = some (x.add [(.letter (· == c), true)]) := by
      rw [State.step]
      show (if c = 'A' then _ else _) = _
      rw [if_neg hA, if_neg hZ, hname, if_neg Bool.false_ne_true, enter_enter hmode]
    rw [reads_cons, step_plain hmode]
    show ((x.enter .escape).reads [c]) = _
    rw [reads_cons, hescape]
    rfl
  case isFalse hc =>
    rw [reads_cons, step_plain hmode, plain_of_not_special hc]
    rfl

/-! ### Classes -/

namespace ClassLetter

def text : ClassLetter → List Char
  | raw c => [c]
  | escaped c => ['\\', c]

/-- A letter that stands for itself; a bracket does so only at the beginning of a class. -/
def Stands (begins : Bool) : ClassLetter → Prop
  | raw c => c ≠ '\\' ∧ (c = ']' → begins = true)
  | escaped c => isEscapeName c = false

end ClassLetter

theorem classLetter_of_stands {l : ClassLetter} {cs : List ClassLetter}
    (hl : l.Stands cs.isEmpty) (hmode : x.mode = .inClass neg cs) :
    x.reads l.text = some (x.enter (.inClass neg (cs ++ [l]))) := by
  cases l with
  | raw c =>
    have hclose : ¬ (c = ']' ∧ cs ≠ []) := by
      rintro ⟨rfl, hne⟩
      exact hne (List.isEmpty_iff.mp (hl.2 rfl))
    rw [ClassLetter.text, reads_cons, State.step, hmode]
    show (x.classLetter neg cs c).bind _ = _
    rw [State.classLetter, if_neg hl.1, if_neg hclose]
    rfl
  | escaped c =>
    rw [ClassLetter.text, reads_cons, State.step, hmode]
    show (State.step (x.enter (.inClassEscape neg cs)) c).bind _ = _
    rw [State.step]
    show (if isEscapeName c = true then _ else _ : Option State).bind _ = _
    rw [hl]
    rfl

theorem reads_classLetters {ls cs : List ClassLetter} (hls : ∀ l ∈ ls, l.Stands false)
    (hne : cs ≠ []) (hmode : x.mode = .inClass neg cs) :
    x.reads (ls.flatMap ClassLetter.text) = some (x.enter (.inClass neg (cs ++ ls))) := by
  induction ls generalizing x cs with
  | nil =>
    rw [List.flatMap_nil, reads_nil, List.append_nil, State.enter, ← hmode]
  | cons l ls ih =>
    obtain ⟨hl, hls⟩ := List.forall_mem_cons.mp hls
    have hempty : cs.isEmpty = false := List.isEmpty_eq_false_iff.mpr hne
    have hcs : cs ++ [l] ≠ [] := List.append_ne_nil_of_right_ne_nil cs (List.cons_ne_nil l [])
    rw [List.flatMap_cons, reads_append, classLetter_of_stands (hempty ▸ hl) hmode,
      Option.bind_some, ih hls hcs rfl, List.append_assoc]
    rfl

/-- The bracket that closes a class. -/
theorem reads_classEnd {cs : List ClassLetter} (hne : cs ≠ []) (hmode : x.mode = .inClass neg cs) :
    x.reads [']'] =
      (ranges cs).map fun rs => (x.enter .plain).add [(.letter (inClass neg rs), true)] := by
  have hescape : ¬ (']' = '\\') := by decide
  rw [reads_cons, State.step, hmode]
  show (x.classLetter neg cs ']').bind _ = _
  rw [State.classLetter, if_neg hescape, if_pos ⟨rfl, hne⟩]
  cases ranges cs with
  | none => rfl
  | some rs => rfl

/-- The text of a class. -/
def classText (neg : Bool) (ls : List ClassLetter) : List Char :=
  '[' :: (if neg then ['^'] else []) ++ ls.flatMap ClassLetter.text ++ [']']

/-- **Classes.**  A class matches the letters of its ranges, or the others; one with a descending
range is refused. -/
theorem writes_class {l : ClassLetter} {ls : List ClassLetter} (hl : l.Stands true)
    (hls : ∀ l ∈ ls, l.Stands false) (hneg : neg = false → l.text.head? ≠ some '^') :
    Writes d (classText neg (l :: ls))
      ((ranges (l :: ls)).map fun rs => [(.letter (inClass neg rs), true)]) := by
  intro x hmode _
  -- the beginning of the class, a `^` included
  have hbegin : ∀ w,
      (x.enter .classStart).reads ((if neg then ['^'] else []) ++ (l.text ++ w)) =
        (x.enter (.inClass neg [])).reads (l.text ++ w) := by
    intro w
    cases neg with
    | true => rfl
    | false =>
      cases l with
      | raw c =>
        have hc : c ≠ '^' := fun h => hneg rfl (h ▸ rfl)
        show (State.step _ c).bind _ = (State.step _ c).bind _
        congr 1
        show (if c = '^' then _ else _) = _
        rw [if_neg hc]
        rfl
      | escaped c => rfl
  have hl' : l.Stands ([] : List ClassLetter).isEmpty := hl
  have hfirst : (x.enter (.inClass neg [])).reads l.text = some (x.enter (.inClass neg [l])) :=
    classLetter_of_stands hl' rfl
  have hrest : (x.enter (.inClass neg [l])).reads (ls.flatMap ClassLetter.text) =
      some (x.enter (.inClass neg (l :: ls))) :=
    reads_classLetters hls (List.cons_ne_nil l []) rfl
  rw [classText, List.cons_append, List.cons_append, reads_cons, step_plain hmode]
  show (x.enter .classStart).reads _ = _
  rw [List.flatMap_cons, List.append_assoc, List.append_assoc, hbegin, reads_append, hfirst,
    Option.bind_some, reads_append, hrest, Option.bind_some,
    reads_classEnd (List.cons_ne_nil l ls) rfl, Option.map_map]
  congr 1
  funext rs
  rw [Function.comp_apply]
  show ((x.enter _).enter .plain).add _ = _
  rw [enter_enter hmode]

/-! ### A whole expression -/

/-- `(?s:…)\Z`, that is `…` up to the end of the text. -/
theorem compile_eq (h : Writes true w o) :
    compile ("(?s:".toList ++ (w ++ ")\\Z".toList)) =
      o.map fun is => seqOf [(seqOf is, true), (.stop, false)] := by
  have hopen : State.init.reads "(?s:".toList = some (State.init.opened .group true) := rfl
  rw [compile, reads_append, hopen, Option.bind_some, reads_append, h _ rfl rfl]
  cases o with
  | none => rfl
  | some is => rfl

variable {is js : List (Regex Char × Bool)} {b t a : List Char} {again : Bool}

theorem derives_seqOf_nil_iff : Derives (seqOf []) b t a ↔ t = [] := derives_empty_iff

theorem derives_seqOf_cons_iff :
    Derives (seqOf ((r, again) :: is)) b t a ↔
      ∃ u v, t = u ++ v ∧ Derives r b u (v ++ a) ∧ Derives (seqOf is) (b ++ u) v a :=
  derives_seq_iff

theorem derives_seqOf_singleton_iff : Derives (seqOf [(r, again)]) b t a ↔ Derives r b t a := by
  rw [derives_seqOf_cons_iff]
  refine ⟨?_, fun h => ⟨t, [], (List.append_nil t).symm, h, Derives.empty⟩⟩
  rintro ⟨u, v, rfl, hr, hv⟩
  obtain rfl := derives_seqOf_nil_iff.mp hv
  rw [List.append_nil]
  exact hr

theorem derives_seqOf_append_iff :
    Derives (seqOf (is ++ js)) b t a ↔
      ∃ u v, t = u ++ v ∧ Derives (seqOf is) b u (v ++ a) ∧ Derives (seqOf js) (b ++ u) v a := by
  induction is generalizing b t with
  | nil =>
    refine ⟨fun h => ⟨[], t, rfl, Derives.empty, ?_⟩, ?_⟩
    · rw [List.append_nil]
      exact h
    · rintro ⟨u, v, rfl, hu, hv⟩
      obtain rfl := derives_empty_iff.mp hu
      rw [List.append_nil] at hv
      exact hv
  | cons i is ih =>
    obtain ⟨r, again⟩ := i
    rw [List.cons_append, derives_seqOf_cons_iff]
    refine ⟨?_, ?_⟩
    · rintro ⟨u, v, rfl, hr, hv⟩
      obtain ⟨u', v', rfl, hu', hv'⟩ := ih.mp hv
      rw [List.append_assoc] at hr hv'
      exact ⟨u ++ u', v', (List.append_assoc _ _ _).symm,
        derives_seqOf_cons_iff.mpr ⟨u, u', rfl, hr, hu'⟩, hv'⟩
    · rintro ⟨t, v', rfl, ht, hv'⟩
      obtain ⟨u, u', rfl, hr, hu'⟩ := derives_seqOf_cons_iff.mp ht
      rw [← List.append_assoc] at hv' hr
      exact ⟨u, u' ++ v', List.append_assoc _ _ _, hr, ih.mpr ⟨u', v', rfl, hu', hv'⟩⟩

/-- The whole text has to match. -/
theorem isMatch_whole_iff (r : Regex Char) (again : Bool) (t : List Char) :
    (seqOf [(r, again), (.stop, false)]).isMatch t = true ↔ Derives r [] t [] := by
  rw [isMatch_iff]
  refine ⟨?_, fun h => ⟨t, [], (List.append_nil t).symm, ?_⟩⟩
  · rintro ⟨u, a, rfl, h⟩
    obtain ⟨v, w, rfl, hr, hw⟩ := derives_seqOf_cons_iff.mp h
    obtain ⟨w, w', rfl, hstop, hnil⟩ := derives_seqOf_cons_iff.mp hw
    obtain rfl := derives_empty_iff.mp hnil
    obtain ⟨rfl, ha⟩ := derives_stop_iff.mp hstop
    obtain rfl : a = [] := ha
    simpa only [List.append_nil] using hr
  · exact derives_seqOf_cons_iff.mpr ⟨t, [], (List.append_nil t).symm, h,
      derives_seqOf_cons_iff.mpr ⟨[], [], rfl, Derives.stop, Derives.empty⟩⟩

end Reloadium.Lib.RegexText
