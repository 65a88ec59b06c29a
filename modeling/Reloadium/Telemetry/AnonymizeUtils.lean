import Reloadium.Lib.JString
import Reloadium.Lib.Redact

namespace Reloadium.Telemetry

open Lib Lib.JString Lib.Regex

/-!
# Telemetry — anonymising a text

`AnonymizeUtils.anonymize` puts a marker for the directory of temporary files, the home directory,
IP addresses, the name of the user and e-mail addresses, in this order.

* `anonymize_clean` — **none of them is left**, whatever the text;
* `anonymize_eq_self_iff` — only a text with one of them is changed, so that anonymising twice is
  anonymising once.

The system properties are as `System` has them: not empty, and `Fits` says that they are not part
of a marker that is put in at their step or later.
-/

/-! ### The patterns -/

/-- The code unit of a letter of ASCII. -/
def unit (c : Char) : UInt16 := UInt16.ofNat c.toNat

/-- `[lo-hi]` -/
def range (lo hi : Char) (u : UInt16) : Bool := unit lo ≤ u && u ≤ unit hi

/-- `\d` -/
def isDigit (u : UInt16) : Bool := range '0' '9' u

/-- `[A-Z]`, in either case. -/
def isLetter (u : UInt16) : Bool := range 'A' 'Z' u || range 'a' 'z' u

/-- `[A-Z0-9._%+-]` -/
def isLocal (u : UInt16) : Bool := isLetter u || isDigit u || (ofString "._%+-").contains u

/-- `[A-Z0-9.-]` -/
def isDomain (u : UInt16) : Bool := isLetter u || isDigit u || (ofString ".-").contains u

def character (c : Char) : Regex UInt16 := .letter (· == unit c)

/-- `EMAIL_PATTERN`: `[A-Z0-9._%+-]+@[A-Z0-9.-]+\.[A-Z]{2,6}`, whatever the case. -/
def emailPattern : Regex UInt16 :=
  .seq (.plus (.letter isLocal)) (.seq (character '@') (.seq (.plus (.letter isDomain))
    (.seq (character '.') (.between (.letter isLetter) 2 6))))

/-- `[01]?\d\d?|2[0-4]\d|25[0-5]` -/
def octet : Regex UInt16 :=
  .alt (.seq (.opt (.letter (range '0' '1'))) (.seq (.letter isDigit) (.opt (.letter isDigit))))
    (.alt (.seq (character '2') (.seq (.letter (range '0' '4')) (.letter isDigit)))
      (.seq (character '2') (.seq (character '5') (.letter (range '0' '5')))))

/-- `IP_PATTERN`: `(([01]?\d\d?|2[0-4]\d|25[0-5])\.){3}([01]?\d\d?|2[0-4]\d|25[0-5])` -/
def ipPattern : Regex UInt16 := .seq (.copies (.seq octet (character '.')) 3) octet

/-! ### The steps -/

/-- The system properties `user.name`, `user.home` and `java.io.tmpdir`. -/
structure System where
  userName : JString
  homeDir : JString
  tmpDir : JString
  userName_ne_nil : userName ≠ []
  homeDir_ne_nil : homeDir ≠ []
  tmpDir_ne_nil : tmpDir ≠ []

def anonymousUserName : JString := ofString "<USER>"
def anonymousHomedir : JString := ofString "<HOMEDIR>"
def anonymousTmpdir : JString := ofString "<TMPDIR>"
def anonymousEmail : JString := ofString "<EMAIL>"
def anonymousIp : JString := ofString "<IP>"

namespace System

variable (sys : System)

def anonymizeUserName : Option JString → Option JString
  | none => none
  | some string =>
    if string.isEmpty then some string else some (replace sys.userName anonymousUserName string)

def anonymizeHomeDir : Option JString → Option JString
  | none => none
  | some string =>
    if string.isEmpty then some string else some (replace sys.homeDir anonymousHomedir string)

def anonymizeTmpDir : Option JString → Option JString
  | none => none
  | some string =>
    if string.isEmpty then some string else some (replace sys.tmpDir anonymousTmpdir string)

end System

def anonymizeEmail : Option JString → Option JString
  | none => none
  | some string =>
    if string.isEmpty then some string else some (emailPattern.replaceAll anonymousEmail string)

def anonymizeIP : Option JString → Option JString
  | none => none
  | some string =>
    if string.isEmpty then some string else some (ipPattern.replaceAll anonymousIp string)

def System.anonymize (sys : System) (string : Option JString) : Option JString :=
  anonymizeEmail
    (sys.anonymizeUserName
      (anonymizeIP
        (sys.anonymizeHomeDir
          (sys.anonymizeTmpDir string))))

/-! ### Addresses -/

theorem plain_emailPattern : emailPattern.Plain := by simp [emailPattern, Plain, plus, between,
  copies, atMost, opt, character]

theorem plain_ipPattern : ipPattern.Plain := by simp [ipPattern, octet, Plain, copies, opt,
  character]

/-- An e-mail address. -/
def IsEmail (v : JString) : Prop := Derives emailPattern [] v []

/-- An IP address. -/
def IsIP (v : JString) : Prop := Derives ipPattern [] v []

theorem mem_of_isEmail {v : JString} (h : IsEmail v) : unit '@' ∈ v := by
  obtain ⟨u, v, rfl, -, hrest⟩ := derives_seq_iff.mp h
  obtain ⟨u', v, rfl, hat, -⟩ := derives_seq_iff.mp hrest
  obtain ⟨c, hc, rfl⟩ := derives_letter_iff.mp hat
  obtain rfl := beq_iff_eq.mp hc
  exact List.mem_append_right u List.mem_cons_self

theorem mem_of_isIP {v : JString} (h : IsIP v) : unit '.' ∈ v := by
  obtain ⟨u, v, rfl, hfirst, -⟩ := derives_seq_iff.mp h
  obtain ⟨u, w, rfl, hpart, -⟩ := derives_seq_iff.mp hfirst
  obtain ⟨u', w', rfl, -, hdot⟩ := derives_seq_iff.mp hpart
  obtain ⟨c, hc, rfl⟩ := derives_letter_iff.mp hdot
  obtain rfl := beq_iff_eq.mp hc
  simp

theorem not_uses_emailPattern : ¬ emailPattern.Uses (unit '<') ∧ ¬ emailPattern.Uses (unit '>') := by
  decide

theorem not_uses_ipPattern : ¬ ipPattern.Uses (unit '<') ∧ ¬ ipPattern.Uses (unit '>') := by
  decide

theorem apart_of_isEmail {v mark : JString} (h : IsEmail v) (hmark : unit '@' ∉ mark) :
    MarkApart (unit '<') mark (unit '>') v where
  ne_nil := List.ne_nil_of_mem (mem_of_isEmail h)
  first := fun hc => not_uses_emailPattern.1 (h.uses hc)
  last := fun hc => not_uses_emailPattern.2 (h.uses hc)
  inside := not_infix_of_notMem (mem_of_isEmail h) hmark

theorem apart_of_isIP {v mark : JString} (h : IsIP v) (hmark : unit '.' ∉ mark) :
    MarkApart (unit '<') mark (unit '>') v where
  ne_nil := List.ne_nil_of_mem (mem_of_isIP h)
  first := fun hc => not_uses_ipPattern.1 (h.uses hc)
  last := fun hc => not_uses_ipPattern.2 (h.uses hc)
  inside := not_infix_of_notMem (mem_of_isIP h) hmark

/-! ### Anonymising -/

namespace System

/-- The system properties have no angle brackets and are not part of a marker that is put in at
their own step or at a later one. -/
structure Fits (sys : System) : Prop where
  tmpDir : ∀ mark ∈ ["TMPDIR", "HOMEDIR", "IP", "USER", "EMAIL"],
    MarkApart (unit '<') (ofString mark) (unit '>') sys.tmpDir
  homeDir : ∀ mark ∈ ["HOMEDIR", "IP", "USER", "EMAIL"],
    MarkApart (unit '<') (ofString mark) (unit '>') sys.homeDir
  userName : ∀ mark ∈ ["USER", "EMAIL"],
    MarkApart (unit '<') (ofString mark) (unit '>') sys.userName

/-- What must not be in an anonymised text. -/
def Private (sys : System) (v : JString) : Prop :=
  v = sys.tmpDir ∨ v = sys.homeDir ∨ IsIP v ∨ v = sys.userName ∨ IsEmail v

/-- The steps of `anonymize`, the first one first. -/
def steps (sys : System) : List (Redaction UInt16 (unit '<') (unit '>')) :=
  [.ofWord (ofString "TMPDIR") sys.tmpDir_ne_nil,
    .ofWord (ofString "HOMEDIR") sys.homeDir_ne_nil,
    .ofRegex (ofString "IP") plain_ipPattern fun _ h => List.ne_nil_of_mem (mem_of_isIP h),
    .ofWord (ofString "USER") sys.userName_ne_nil,
    .ofRegex (ofString "EMAIL") plain_emailPattern fun _ h => List.ne_nil_of_mem (mem_of_isEmail h)]

variable {sys : System}

theorem words_steps_iff {v : JString} :
    (∃ step ∈ sys.steps, step.words v) ↔ sys.Private v := by
  simp only [steps, List.exists_mem_cons_iff, List.not_mem_nil, false_and, exists_false, or_false]
  exact Iff.rfl

theorem markApartFromNext_steps (hfits : sys.Fits) : MarkApartFromNext sys.steps := by
  refine ⟨?_, ?_, ?_, ?_, ?_, trivial⟩
  · intro v hv
    obtain rfl : v = sys.tmpDir := hv
    simpa [Redaction.ofWord, Redaction.ofRegex] using hfits.tmpDir
  · intro v hv
    obtain rfl : v = sys.homeDir := hv
    simpa [Redaction.ofWord, Redaction.ofRegex] using hfits.homeDir
  · intro v hv
    have hmark : ∀ mark ∈ ["IP", "USER", "EMAIL"], unit '.' ∉ ofString mark := by decide
    have hapart := fun mark hmem => apart_of_isIP hv (hmark mark hmem)
    simpa [Redaction.ofWord, Redaction.ofRegex] using hapart
  · intro v hv
    obtain rfl : v = sys.userName := hv
    simpa [Redaction.ofWord, Redaction.ofRegex] using hfits.userName
  · intro v hv
    have hmark : unit '@' ∉ ofString "EMAIL" := by decide
    simpa [Redaction.ofRegex] using apart_of_isEmail hv hmark

/-- An empty text stays as it is, as it does in each step. -/
theorem anonymize_some (s : JString) : sys.anonymize (some s) = some (redactAll sys.steps s) := by
  have hword : ∀ (sub w t : JString),
      (if t.isEmpty then some t else some (replace sub w t)) = some (replace sub w t) := by
    intro sub w t
    cases t with
    | nil => rfl
    | cons c t => rfl
  have hregex : ∀ (r : Regex UInt16) (w t : JString),
      (if t.isEmpty then some t else some (r.replaceAll w t)) = some (r.replaceAll w t) := by
    intro r w t
    cases t with
    | nil => rfl
    | cons c t => rfl
  rw [anonymize, anonymizeTmpDir, hword, anonymizeHomeDir, hword, anonymizeIP, hregex,
    anonymizeUserName, hword, anonymizeEmail, hregex]
  rfl

/-- **Nothing private is left** in an anonymised text. -/
theorem anonymize_clean (hfits : sys.Fits) (s : JString) :
    ∃ s', sys.anonymize (some s) = some s' ∧ ∀ v, sys.Private v → ¬ v <:+: s' := by
  refine ⟨_, anonymize_some s, fun v hv => ?_⟩
  obtain ⟨step, hstep, hword⟩ := words_steps_iff.mpr hv
  exact not_infix_redactAll (markApartFromNext_steps hfits) hstep hword s

/-- The system properties of a user on Linux. -/
def linuxSystem : System where
  userName := ofString "ann"
  homeDir := ofString "/home/ann"
  tmpDir := ofString "/tmp"
  userName_ne_nil := by decide
  homeDir_ne_nil := by decide
  tmpDir_ne_nil := by decide

theorem fits_linuxSystem : linuxSystem.Fits where
  tmpDir := by decide
  homeDir := by decide
  userName := by decide

theorem anonymize_clean_linuxSystem :
    ∃ s', linuxSystem.anonymize (some (ofString "ann@x.org from 10.0.0.1: no /tmp/a")) = some s' ∧
      ∀ v, linuxSystem.Private v → ¬ v <:+: s' :=
  anonymize_clean fits_linuxSystem (ofString "ann@x.org from 10.0.0.1: no /tmp/a")

/-- Only a text with something private is changed. -/
theorem anonymize_eq_self_iff (hfits : sys.Fits) (s : JString) :
    sys.anonymize (some s) = some s ↔ ∀ v, sys.Private v → ¬ v <:+: s := by
  rw [anonymize_some, Option.some.injEq, redactAll_eq_self_iff (markApartFromNext_steps hfits)]
  refine ⟨fun h v hv => ?_, fun h step hstep v hword => ?_⟩
  · obtain ⟨step, hstep, hword⟩ := words_steps_iff.mpr hv
    exact h step hstep v hword
  · exact h v (words_steps_iff.mp ⟨step, hstep, hword⟩)

theorem anonymize_eq_self_linuxSystem :
    linuxSystem.anonymize (some (ofString "no module named x")) =
        some (ofString "no module named x") ↔
      ∀ v, linuxSystem.Private v → ¬ v <:+: ofString "no module named x" :=
  anonymize_eq_self_iff fits_linuxSystem (ofString "no module named x")

end System

end Reloadium.Telemetry
