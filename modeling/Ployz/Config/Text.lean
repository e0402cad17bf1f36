import Mathlib.Data.String.Basic
import Mathlib.Data.List.DropRight

/-!
# Text the configuration rules read

The standard library's text functions that validation uses, over the characters of a
string, and the shapes of names and identities: a DNS label, an ingress hostname and
the text forms `uuid::Uuid::parse_str` takes.
-/

namespace Ployz

/-! ## Characters and trimming -/

/-- `char::is_whitespace`: Unicode's `White_Space` property. -/
def isWhitespace (c : Char) : Bool :=
  let n := c.toNat
  (9 ≤ n && n ≤ 13) || n == 0x20 || n == 0x85 || n == 0xA0 || n == 0x1680 ||
    (0x2000 ≤ n && n ≤ 0x200A) || n == 0x2028 || n == 0x2029 || n == 0x202F ||
    n == 0x205F || n == 0x3000

/-- `char::is_control`: Unicode's general category `Cc`. -/
def isControl (c : Char) : Bool :=
  c.toNat < 0x20 || (0x7F ≤ c.toNat && c.toNat < 0xA0)

def trim (s : String) : String :=
  String.ofList ((s.toList.dropWhile isWhitespace).rdropWhile isWhitespace)

/-- `char::to_lowercase` as hostnames see it: `A`–`Z`, and the Kelvin sign, whose
lowercase is `k`. The lowercase of every other character outside ASCII is outside ASCII
again, which no hostname takes, so leaving it as it is refuses the same text. -/
def lowerChar (c : Char) : Char :=
  if 'A' ≤ c ∧ c ≤ 'Z' then Char.ofNat (c.toNat + 32) else if c = Char.ofNat 0x212A then 'k' else c

/-- `str::to_lowercase`, before a hostname is parsed. -/
def toLowercase (s : String) : String := String.ofList (s.toList.map lowerChar)

def stripSuffix (s suffix : String) : Option String :=
  if suffix.toList <:+ s.toList then
    some (String.ofList (s.toList.take (s.toList.length - suffix.toList.length)))
  else none

/-- Whether two `/` stand next to each other: `str::contains("//")`. -/
def hasDoubleSlash : List Char → Bool
  | a :: b :: rest => (a == '/' && b == '/') || hasDoubleSlash (b :: rest)
  | _ => false

/-! ## Names -/

def isAsciiLowerOrDigit (c : Char) : Bool := ('a' ≤ c && c ≤ 'z') || ('0' ≤ c && c ≤ '9')

def isLabelChar (c : Char) : Bool := isAsciiLowerOrDigit c || c == '-'

/-- `is_dns_label`. Every character it takes is one byte, so characters count as bytes do. -/
def isDnsLabelChars (cs : List Char) : Bool :=
  !cs.isEmpty && cs.length ≤ 63 && cs.head?.any isAsciiLowerOrDigit &&
    cs.getLast?.any isAsciiLowerOrDigit && cs.all isLabelChar

def isDnsLabel (s : String) : Bool := isDnsLabelChars s.toList

def splitDots : List Char → List (List Char)
  | [] => [[]]
  | c :: rest =>
    match splitDots rest with
    | [] => [[c]]
    | part :: parts => if c = '.' then [] :: part :: parts else (c :: part) :: parts

/-- `is_hostname`, which `IngressHost::parse` asks. -/
def isHostname (s : String) : Bool :=
  1 ≤ s.toList.length && s.toList.length ≤ 253 && (splitDots s.toList).all isDnsLabelChars

/-! ## Identities -/

def isHexDigit (c : Char) : Bool :=
  ('0' ≤ c && c ≤ '9') || ('a' ≤ c && c ≤ 'f') || ('A' ≤ c && c ≤ 'F')

/-- Hyphens where a hyphenated UUID has them, hexadecimal digits elsewhere. -/
def isHyphenatedUuid (cs : List Char) : Bool :=
  cs.length == 36 && cs.zipIdx.all fun (c, i) =>
    if i == 8 || i == 13 || i == 18 || i == 23 then c == '-' else isHexDigit c

/-- Whether `uuid::Uuid::parse_str` takes the text: 32 digits, or a hyphenated UUID on
its own, in braces, or after `urn:uuid:`. -/
def isUuid (s : String) : Bool :=
  let cs := s.toList
  match cs.length with
  | 32 => cs.all isHexDigit
  | 36 => isHyphenatedUuid cs
  | 38 => cs.head? == some '{' && cs.getLast? == some '}' && isHyphenatedUuid cs.tail.dropLast
  | 45 => cs.take 9 == "urn:uuid:".toList && isHyphenatedUuid (cs.drop 9)
  | _ => false

theorem stripSuffix_append (s suffix : String) : stripSuffix (s ++ suffix) suffix = some s := by
  simp [stripSuffix]

/-! ## Text that is already normal -/

variable {s : String}

theorem trim_eq_of_all (h : ∀ c ∈ s.toList, isWhitespace c = false) : trim s = s := by
  have hd : s.toList.dropWhile isWhitespace = s.toList :=
    List.dropWhile_eq_self_iff.mpr fun hl => by simpa using h _ (List.getElem_mem hl)
  have hr : s.toList.rdropWhile isWhitespace = s.toList :=
    List.rdropWhile_eq_self_iff.mpr fun hl => by simpa using h _ (List.getLast_mem hl)
  rw [trim, hd, hr, String.ofList_toList]

theorem trim_trim (s : String) : trim (trim s) = trim s := by
  set l := s.toList.dropWhile isWhitespace with hl
  have hd : (l.rdropWhile isWhitespace).dropWhile isWhitespace = l.rdropWhile isWhitespace := by
    refine List.dropWhile_eq_self_iff.mpr fun hlen => ?_
    -- The first character kept is the first after the leading blanks.
    have hinitial := List.rdropWhile_prefix isWhitespace (l := l)
    have hpos : 0 < l.length := Nat.lt_of_lt_of_le hlen hinitial.length_le
    have hget : (l.rdropWhile isWhitespace)[0] = l[0] := hinitial.getElem hlen
    rw [hget]
    simpa [hl] using List.dropWhile_get_zero_not isWhitespace s.toList hpos
  rw [trim, trim, String.toList_ofList, ← hl, hd, List.rdropWhile_idempotent]

theorem char_le_iff {a b : Char} : a ≤ b ↔ a.toNat ≤ b.toNat := by
  rw [Char.le_def, UInt32.le_iff_toNat_le]
  rfl

theorem isWhitespace_eq_false {c : Char} (h : 33 ≤ c.toNat ∧ c.toNat ≤ 126) :
    isWhitespace c = false := by
  simp only [isWhitespace, Bool.or_eq_false_iff, Bool.and_eq_false_iff, decide_eq_false_iff_not,
    beq_eq_false_iff_ne]
  omega

/-- A character hostnames keep: of a label, or the dot between two. -/
def isHostChar (c : Char) : Bool := isLabelChar c || c == '.'

theorem isHostChar_toNat {c : Char} (h : isHostChar c = true) :
    (97 ≤ c.toNat ∧ c.toNat ≤ 122) ∨ (45 ≤ c.toNat ∧ c.toNat ≤ 57) := by
  simp only [isHostChar, isLabelChar, isAsciiLowerOrDigit, Bool.or_eq_true, Bool.and_eq_true,
    decide_eq_true_eq, char_le_iff, beq_iff_eq] at h
  rcases h with (((⟨hlo, hhi⟩ | ⟨hlo, hhi⟩) | rfl) | rfl)
  · exact .inl ⟨hlo, hhi⟩
  · exact .inr ⟨le_trans (by decide) hlo, hhi⟩
  · exact .inr (by decide)
  · exact .inr (by decide)

theorem lowerChar_eq_self {c : Char} (h : isHostChar c = true) : lowerChar c = c := by
  have hc := isHostChar_toNat h
  have hup : ¬ ('A' ≤ c ∧ c ≤ 'Z') := by
    simp only [char_le_iff, show 'A'.toNat = 65 from rfl, show 'Z'.toNat = 90 from rfl]
    omega
  have hk : c ≠ Char.ofNat 0x212A := by
    rintro rfl
    exact absurd hc (by decide)
  simp only [lowerChar, hup, hk, if_false]

theorem toLowercase_trim_eq_self (h : ∀ c ∈ s.toList, isHostChar c = true) :
    toLowercase (trim s) = s := by
  have ht : trim s = s := trim_eq_of_all fun c hc => by
    have := isHostChar_toNat (h c hc)
    exact isWhitespace_eq_false (by omega)
  have hm : s.toList.map lowerChar = s.toList := by
    rw [List.map_congr_left fun c hc => lowerChar_eq_self (h c hc), List.map_id']
  rw [ht, toLowercase, hm, String.ofList_toList]

theorem isHostChar_of_isDnsLabel (h : isDnsLabel s = true) :
    ∀ c ∈ s.toList, isHostChar c = true := by
  simp only [isDnsLabel, isDnsLabelChars, Bool.and_eq_true, List.all_eq_true] at h
  intro c hc
  simp [isHostChar, h.2 c hc]

theorem mem_splitDots {cs : List Char} {c : Char} (hc : c ∈ cs) :
    c = '.' ∨ ∃ part ∈ splitDots cs, c ∈ part := by
  induction cs with
  | nil => simp at hc
  | cons a rest ih =>
    rcases List.mem_cons.mp hc with rfl | hc
    · simp only [splitDots]
      split
      · exact .inr ⟨[c], by simp⟩
      · by_cases hdot : c = '.' <;> simp [hdot]
    · rcases ih hc with hdot | ⟨part, hpart, hc⟩
      · exact .inl hdot
      · refine .inr ?_
        simp only [splitDots]
        cases hs : splitDots rest with
        | nil => simp [hs] at hpart
        | cons first parts =>
          rw [hs] at hpart
          by_cases hdot : a = '.'
          · exact ⟨part, by simpa [hdot] using .inr (List.mem_cons.mp hpart), hc⟩
          · rcases List.mem_cons.mp hpart with rfl | hpart
            · exact ⟨a :: part, by simp [hdot], List.mem_cons_of_mem _ hc⟩
            · exact ⟨part, by simp [hdot, hpart], hc⟩

theorem isHostChar_of_isHostname (h : isHostname s = true) :
    ∀ c ∈ s.toList, isHostChar c = true := by
  simp only [isHostname, Bool.and_eq_true, List.all_eq_true] at h
  intro c hc
  rcases mem_splitDots hc with rfl | ⟨part, hp, hc⟩
  · rfl
  · have := h.2 part hp
    simp only [isDnsLabelChars, Bool.and_eq_true, List.all_eq_true] at this
    simp [isHostChar, this.2 c hc]

end Ployz
