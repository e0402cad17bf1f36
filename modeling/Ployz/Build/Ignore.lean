import Ployz.Config.Text
import Ployz.Lib.Run
import Mathlib.Data.List.Infix

/-!
# Selection of a build context

Docker's ignore rules, applied to a directory tree before any source leaves the host. The last
pattern that matches a path or one of its parents decides on it, and a directory that is ignored is
walked only where an exception may match below it. `walk_selects_exactly` says that this loses no
path, and that no two names are taken for one.
-/

namespace Ployz.Ignore

open Run

/-! ## Names as text -/

/-- What `utf8_chunks` yields: a character, or a byte that begins none. -/
inductive Chunk
  | char (c : Char)
  | raw (byte : UInt8)

/-- The character that is encoded at the head of some bytes. -/
def firstChar (bytes : List UInt8) : Option Char :=
  bytes.toByteArray.utf8DecodeChar? 0

/-- The chunks of what follows the first `skip` bytes. An invalid sequence goes on with continuation
bytes only, which begin no character either. -/
def chunksAfter : Nat → List UInt8 → List Chunk
  | _, [] => []
  | skip + 1, _ :: rest => chunksAfter skip rest
  | 0, byte :: rest =>
    match firstChar (byte :: rest) with
    | some c => .char c :: chunksAfter (c.utf8Size - 1) rest
    | none => .raw byte :: chunksAfter 0 rest

def chunks (bytes : List UInt8) : List Chunk := chunksAfter 0 bytes

def rawByte : Nat := 0x10FF00

def isReserved (c : Char) : Bool := rawByte + 0x80 ≤ c.toNat && c.toNat ≤ rawByte + 0xFF

/-- Whether valid UTF-8 in `bytes` contains a character reserved for raw bytes. -/
def reserved (bytes : List UInt8) : Bool :=
  (chunks bytes).any fun
    | .char c => isReserved c
    | .raw _ => false

def Chunk.text : Chunk → Char
  | .char c => c
  | .raw byte => Char.ofNat (rawByte + byte.toNat)

/-- Each byte that is not UTF-8 becomes its own character. -/
def decode (bytes : List UInt8) : List Char := (chunks bytes).map Chunk.text

def slash : UInt8 := 47

/-- A file name: what stands between two slashes, but for the dots. -/
structure Name where
  bytes : List UInt8
  nonempty : bytes ≠ []
  noSlash : slash ∉ bytes
  noDots : bytes ≠ [46] ∧ bytes ≠ [46, 46]
deriving DecidableEq

abbrev RelPath := List Name

def RelPath.bytes : RelPath → List UInt8
  | [] => []
  | [name] => name.bytes
  | name :: path => name.bytes ++ slash :: RelPath.bytes path

def decodePath (path : RelPath) : List Char := decode path.bytes

/-! ### Characters of bytes -/

theorem firstChar_encode (c : Char) (rest : List UInt8) :
    firstChar (String.utf8EncodeChar c ++ rest) = some c := by
  rw [firstChar, List.toByteArray_append]
  exact ByteArray.utf8DecodeChar?_utf8EncodeChar_append

variable {c : Char} {byte : UInt8} {source : List Char}

theorem exists_of_firstChar {bytes : List UInt8} (h : firstChar bytes = some c) :
    ∃ rest, bytes = String.utf8EncodeChar c ++ rest := by
  obtain ⟨rest, hrest⟩ := ByteArray.exists_of_utf8DecodeChar?_eq_some h
  refine ⟨rest.data.toList, ?_⟩
  simpa using congrArg (fun array : ByteArray => array.data.toList) hrest

theorem chunksAfter_append (left right : List UInt8) :
    chunksAfter left.length (left ++ right) = chunks right := by
  induction left with
  | nil => rfl
  | cons byte left ih => exact ih

theorem chunks_encode (c : Char) (rest : List UInt8) :
    chunks (String.utf8EncodeChar c ++ rest) = .char c :: chunks rest := by
  have hfirst := firstChar_encode c rest
  have hlength := String.length_utf8EncodeChar c
  cases hbytes : String.utf8EncodeChar c with
  | nil => simp [hbytes] at hlength; have := c.utf8Size_pos; omega
  | cons byte bytes =>
    rw [hbytes] at hfirst hlength
    rw [List.cons_append] at hfirst ⊢
    have hskip : c.utf8Size - 1 = bytes.length := by simp [← hlength]
    rw [chunks, chunksAfter, hfirst]
    simp only [hskip, chunksAfter_append]

theorem chunks_raw {rest : List UInt8} (h : firstChar (byte :: rest) = none) :
    chunks (byte :: rest) = .raw byte :: chunks rest := by
  rw [chunks, chunksAfter, h]
  rfl

/-- Bytes are nothing, a character and bytes, or a byte that begins no character and bytes. -/
theorem bytes_induction {motive : List UInt8 → Prop} (nil : motive [])
    (char : ∀ c rest, motive rest → motive (String.utf8EncodeChar c ++ rest))
    (raw : ∀ byte rest, firstChar (byte :: rest) = none → motive rest → motive (byte :: rest))
    (bytes : List UInt8) : motive bytes := by
  induction hlength : bytes.length using Nat.strong_induction_on generalizing bytes with
  | h length ih =>
    cases bytes with
    | nil => exact nil
    | cons byte rest =>
      rw [List.length_cons] at hlength
      cases hfirst : firstChar (byte :: rest) with
      | none => exact raw byte rest hfirst (ih rest.length (by omega) rest rfl)
      | some c =>
        obtain ⟨left, hleft⟩ := exists_of_firstChar hfirst
        have hshort : left.length < rest.length + 1 := by
          have := c.utf8Size_pos
          rw [← List.length_cons, hleft, List.length_append, String.length_utf8EncodeChar]
          omega
        exact hleft ▸ char c left (ih left.length (by omega) left rfl)

theorem slash_of_mem_encode {before after : List UInt8}
    (h : String.utf8EncodeChar c = before ++ slash :: after) : before = [] := by
  have hlt : before.length < (String.utf8EncodeChar c).length := by simp [h]
  have hfirst : (String.utf8EncodeChar c)[before.length].IsUTF8FirstByte := by
    simp only [h, List.getElem_append_right (Nat.le_refl _), Nat.sub_self, List.getElem_cons_zero]
    decide
  exact List.eq_nil_of_length_eq_zero (UInt8.isUTF8FirstByte_getElem_utf8EncodeChar.mp hfirst)

theorem encode_slash : String.utf8EncodeChar '/' = [slash] := by decide

/-- A slash is a character of its own. -/
theorem chunks_slash (left right : List UInt8) :
    chunks (left ++ slash :: right) = chunks left ++ .char '/' :: chunks right := by
  induction left using bytes_induction with
  | nil => exact chunks_encode '/' right
  | char c rest ih => rw [List.append_assoc, chunks_encode, ih, chunks_encode, List.cons_append]
  | raw byte rest hfirst ih =>
    have hnone : firstChar (byte :: (rest ++ slash :: right)) = none := by
      by_contra hsome
      obtain ⟨c, hc⟩ := Option.ne_none_iff_exists'.mp hsome
      obtain ⟨more, hmore⟩ := exists_of_firstChar hc
      -- The character ends before the slash, so it begins the left side, or it holds the slash.
      rcases List.append_eq_append_iff.mp
        (show (byte :: rest) ++ slash :: right = String.utf8EncodeChar c ++ more from hmore) with
        ⟨tail, hencode, hright⟩ | ⟨tail, hleft, -⟩
      · cases tail with
        | nil =>
          have hsame := firstChar_encode c []
          rw [hencode, List.append_nil, List.append_nil, hfirst] at hsame
          cases hsame
        | cons first tail =>
          obtain ⟨rfl, -⟩ := List.cons.inj hright
          cases slash_of_mem_encode hencode
      · rw [hleft, firstChar_encode] at hfirst
        cases hfirst
    rw [List.cons_append, chunks_raw hnone, ih, chunks_raw hfirst, List.cons_append]

theorem decode_slash (left right : List UInt8) :
    decode (left ++ slash :: right) = decode left ++ '/' :: decode right := by
  simp [decode, chunks_slash, Chunk.text]

theorem toNat_ofNat {n : Nat} (h : n.isValidChar) : (Char.ofNat n).toNat = n := by
  rw [Char.ofNat, dif_pos h]
  rfl

theorem toNat_raw (byte : UInt8) : (Chunk.raw byte).text.toNat = rawByte + byte.toNat := by
  have := byte.toNat_lt
  exact toNat_ofNat (Or.inr (by simp only [rawByte]; omega))

theorem slash_not_mem_decode {bytes : List UInt8} (h : slash ∉ bytes) : '/' ∉ decode bytes := by
  induction bytes using bytes_induction with
  | nil => exact List.not_mem_nil
  | char c rest ih =>
    rw [decode, chunks_encode]
    refine List.not_mem_cons_of_ne_of_not_mem ?_ (ih fun hmem => h (List.mem_append_right _ hmem))
    rintro rfl
    exact h (by simp [encode_slash])
  | raw byte rest hfirst ih =>
    rw [decode, chunks_raw hfirst]
    refine List.not_mem_cons_of_ne_of_not_mem ?_ (ih fun hmem => h (List.mem_cons_of_mem _ hmem))
    intro hchar
    have hnat := (congrArg Char.toNat hchar).trans (toNat_raw byte)
    simp [rawByte] at hnat
    omega

/-! ### Names are not confused -/

def Chunk.bytes : Chunk → List UInt8
  | .char c => String.utf8EncodeChar c
  | .raw byte => [byte]

theorem flatMap_chunks (bytes : List UInt8) : (chunks bytes).flatMap Chunk.bytes = bytes := by
  induction bytes using bytes_induction with
  | nil => rfl
  | char c rest ih => rw [chunks_encode, List.flatMap_cons, ih, Chunk.bytes]
  | raw byte rest hfirst ih => rw [chunks_raw hfirst, List.flatMap_cons, ih]; rfl

/-- The chunk that a character stands for. -/
def chunkOf (c : Char) : Chunk :=
  if isReserved c then .raw (UInt8.ofNat (c.toNat - rawByte)) else .char c

theorem encode_ascii (h : byte.toNat < 0x80) :
    String.utf8EncodeChar (Char.ofNat byte.toNat) = [byte] := by
  have hval : (Char.ofNat byte.toNat).val.toNat = byte.toNat := toNat_ofNat (Or.inl (by omega))
  rw [String.utf8EncodeChar, hval]
  simp [show byte.toNat ≤ 127 by omega]

theorem raw_le {rest : List UInt8} (h : firstChar (byte :: rest) = none) :
    0x80 ≤ byte.toNat := by
  by_contra hlt
  have hsome := firstChar_encode (Char.ofNat byte.toNat) rest
  rw [encode_ascii (by omega), List.singleton_append, h] at hsome
  cases hsome

theorem chunkOf_raw (h : 0x80 ≤ byte.toNat) :
    chunkOf (Chunk.raw byte).text = .raw byte := by
  have hlt := byte.toNat_lt
  have hres : isReserved (Chunk.raw byte).text = true := by
    simp only [isReserved, toNat_raw, Bool.and_eq_true, decide_eq_true_eq]
    omega
  rw [chunkOf, if_pos hres, toNat_raw, Nat.add_sub_cancel_left]
  simp

theorem chunks_eq_map {bytes : List UInt8} (h : reserved bytes = false) :
    chunks bytes = (decode bytes).map chunkOf := by
  induction bytes using bytes_induction with
  | nil => rfl
  | char c rest ih =>
    simp only [reserved, decode, chunks_encode, List.any_cons, Bool.or_eq_false_iff,
      List.map_cons] at h ih ⊢
    rw [← ih h.2, Chunk.text, chunkOf, h.1, if_neg Bool.false_ne_true]
  | raw byte rest hfirst ih =>
    simp only [reserved, decode, chunks_raw hfirst, List.any_cons, Bool.false_or,
      List.map_cons] at h ih ⊢
    rw [← ih h, chunkOf_raw (raw_le hfirst)]

theorem decode_injective {bytes other : List UInt8} (hbytes : reserved bytes = false)
    (hother : reserved other = false) (h : decode bytes = decode other) : bytes = other := by
  rw [← flatMap_chunks bytes, ← flatMap_chunks other, chunks_eq_map hbytes, chunks_eq_map hother, h]

/-! ### Paths as text -/

variable {path : RelPath}

theorem decodePath_cons (name : Name) (h : path ≠ []) :
    decodePath (name :: path) = decode name.bytes ++ '/' :: decodePath path := by
  cases path with
  | nil => exact absurd rfl h
  | cons next path => exact decode_slash name.bytes _

theorem decodePath_append {path more : RelPath} (hpath : path ≠ []) (hmore : more ≠ []) :
    decodePath (path ++ more) = decodePath path ++ '/' :: decodePath more := by
  induction path with
  | nil => exact absurd rfl hpath
  | cons name path ih =>
    rw [List.cons_append, decodePath_cons name (List.append_ne_nil_of_right_ne_nil path hmore)]
    cases path with
    | nil => rfl
    | cons next path =>
      rw [ih (List.cons_ne_nil _ _), decodePath_cons name (List.cons_ne_nil _ _)]
      simp

theorem splitOn_decodePath (h : path ≠ []) :
    (decodePath path).splitOn '/' = path.map fun name => decode name.bytes := by
  induction path with
  | nil => exact absurd rfl h
  | cons name path ih =>
    have hslash := slash_not_mem_decode name.noSlash
    cases path with
    | nil =>
      rw [List.splitOn_eq_splitOnP]
      exact List.splitOnP_eq_singleton fun c hc =>
        beq_eq_false_iff_ne.mpr (ne_of_mem_of_not_mem hc hslash)
    | cons next path =>
      rw [decodePath_cons name (List.cons_ne_nil _ _),
        List.splitOn_append_cons_self_of_not_mem hslash, ih (List.cons_ne_nil _ _)]
      rfl

def joined (parts : List (List Char)) : List Char := ['/'].intercalate parts

theorem joined_names (h : path ≠ []) :
    joined (path.map fun name => decode name.bytes) = decodePath path := by
  rw [← splitOn_decodePath h, joined, List.intercalate_splitOn]

/-! ## Patterns -/

/-- Parts of the expression of a pattern: a character that stands for itself outside a class, one
that the pattern escapes, `(.*/)?`, `.*`, `[^/]*`, `[^/]`, and `[`, `]` and `^` as they are. -/
inductive Token
  | lit (c : Char)
  | escaped (c : Char)
  | directories
  | everything
  | star
  | any
  | bare (c : Char)
deriving DecidableEq

/-- The regular expressions of the build: an anchored expression that begins with characters that
stand for themselves matches only texts that begin with them. -/
structure Regexes where
  new : List Token → Option (List Char → Bool)
  starts : ∀ {literals : List Char} {rest isMatch text},
    new (literals.map .lit ++ rest) = some isMatch → isMatch text = true → literals <+: text

inductive Detected
  | exact
  | prefixed
  | suffixed
  | regex
deriving DecidableEq

inductive Kind
  | exact
  /-- A trailing `**`: the literal before it is a prefix. -/
  | prefixed (before : List Char)
  /-- A leading `**`: the literal after it is a suffix. -/
  | suffixed (after : List Char)
  | regex (isMatch : List Char → Bool)

/-- A `**`: what it adds and what is detected by it. -/
def deep (first : Bool) (detected : Detected) (last : Bool) : List Token × Detected :=
  let (tokens, found) :=
    if !last then ([.directories], .regex)
    else if detected = .exact then ([], .prefixed)
    else ([.everything], .regex)
  (tokens, if first then .suffixed else found)

/-- Characters that a pattern does not take as they are. -/
def isWildcard (c : Char) : Bool := ['*', '[', ']', '?', '^', '\\'].contains c

/-- One pass over a pattern; `first` tells that nothing was read. -/
def scan (first : Bool) (detected : Detected) : List Char → Option (List Token × Detected)
  | [] => some ([], detected)
  | '*' :: '*' :: '/' :: rest =>
    let (tokens, found) := deep first detected rest.isEmpty
    (scan false found rest).map fun (more, kind) => (tokens ++ more, kind)
  | '*' :: '*' :: rest =>
    let (tokens, found) := deep first detected rest.isEmpty
    (scan false found rest).map fun (more, kind) => (tokens ++ more, kind)
  | '*' :: rest => (scan false .regex rest).map fun (more, kind) => (.star :: more, kind)
  | '?' :: rest => (scan false .regex rest).map fun (more, kind) => (.any :: more, kind)
  | '\\' :: next :: rest =>
    (scan false .regex rest).map fun (more, kind) => (.escaped next :: more, kind)
  | ['\\'] => none
  | '[' :: rest => (scan false .regex rest).map fun (more, kind) => (.bare '[' :: more, kind)
  | ']' :: rest => (scan false .regex rest).map fun (more, kind) => (.bare ']' :: more, kind)
  | '^' :: rest => (scan false detected rest).map fun (more, kind) => (.bare '^' :: more, kind)
  | c :: rest => (scan false detected rest).map fun (more, kind) => (.lit c :: more, kind)

def compile (regexes : Regexes) (source : List Char) : Option Kind :=
  (scan true .exact source).bind fun (tokens, detected) =>
    match detected with
    | .exact => some .exact
    | .prefixed =>
      if ['*', '*'] <:+ source then some (.prefixed (source.take (source.length - 2))) else none
    | .suffixed => some (.suffixed (source.drop 2))
    | .regex => (regexes.new tokens).map .regex

structure Pattern (regexes : Regexes) where
  source : List Char
  exclusion : Bool
  kind : Kind
  compiled : compile regexes source = some kind

variable {regexes : Regexes}

def Pattern.matches (pattern : Pattern regexes) (path : List Char) : Bool :=
  match pattern.kind with
  | .exact => path == pattern.source
  | .prefixed before => before.isPrefixOf path
  | .suffixed after => after.isSuffixOf path || after == '/' :: path
  | .regex isMatch => isMatch path

/-- The literal that a pattern begins with. -/
def literal (source : List Char) : List Char := source.takeWhile (!isWildcard ·)

theorem scan_cons (h : isWildcard c = false) (first : Bool) (detected : Detected)
    (rest : List Char) :
    scan first detected (c :: rest) =
      (scan false detected rest).map fun (more, kind) => (.lit c :: more, kind) := by
  simp only [isWildcard, List.contains_cons, List.contains_nil, Bool.or_false,
    Bool.or_eq_false_iff, beq_eq_false_iff_ne] at h
  obtain ⟨hstar, hopen, hclose, hany, hhat, hescape⟩ := h
  conv_lhs => unfold scan
  split <;> simp_all

variable {detected : Detected} {tokens : List Token}

variable {first : Bool}

/-- What a pattern begins with stands in its expression as it is. -/
theorem literal_of_scan {found : Detected} (h : scan first detected source = some (tokens, found)) :
    ∃ rest, tokens = (literal source).map .lit ++ rest := by
  induction source generalizing first tokens with
  | nil => exact ⟨tokens, rfl⟩
  | cons c source ih =>
    cases hc : isWildcard c with
    | true => exact ⟨tokens, by simp [literal, hc]⟩
    | false =>
      rw [scan_cons hc] at h
      obtain ⟨⟨more, kind⟩, hmore, heq⟩ := Option.map_eq_some_iff.mp h
      obtain ⟨rfl, rfl⟩ := Prod.mk.inj heq
      obtain ⟨rest, rfl⟩ := ih hmore
      exact ⟨rest, by simp [literal, hc]⟩

/-- A pattern without wildcards changes nothing of what is detected. -/
theorem detected_of_literal {found : Detected} (hsource : (literal source).length = source.length)
    (h : scan first detected source = some (tokens, found)) : found = detected := by
  induction source generalizing first tokens with
  | nil => exact ((Prod.mk.inj (Option.some.inj h)).2).symm
  | cons c source ih =>
    cases hc : isWildcard c with
    | true => simp [literal, hc] at hsource
    | false =>
      rw [scan_cons hc] at h
      obtain ⟨⟨more, kind⟩, hmore, heq⟩ := Option.map_eq_some_iff.mp h
      obtain ⟨-, rfl⟩ := Prod.mk.inj heq
      exact ih (by simpa [literal, hc] using hsource) hmore

theorem deep_suffixed {last : Bool} (h : (deep first detected last).2 = .suffixed) :
    first = true := by
  cases first with
  | true => rfl
  | false => cases last <;> cases detected <;> cases h

/-- Only a pattern that begins with a star is compared as a suffix. -/
theorem head_of_suffixed (h : scan first detected source = some (tokens, .suffixed)) :
    detected = .suffixed ∨ first = true ∧ source.head? = some '*' := by
  fun_induction scan first detected source generalizing tokens with
  | case1 => exact Or.inl (Prod.mk.inj (Option.some.inj h)).2
  | case2 first detected rest added found hdeep ih
  | case3 first detected rest _ added found hdeep ih =>
    obtain ⟨⟨more, kind⟩, hmore, heq⟩ := Option.map_eq_some_iff.mp h
    obtain ⟨-, rfl⟩ := Prod.mk.inj heq
    rcases ih hmore with hfound | ⟨hfirst, -⟩
    · exact Or.inr ⟨deep_suffixed (by rw [hdeep, hfound]), rfl⟩
    · cases hfirst
  | case7 => cases h
  | case4 | case5 | case6 | case8 | case9 | case10 | case11 =>
    rename_i ih
    obtain ⟨⟨more, kind⟩, hmore, heq⟩ := Option.map_eq_some_iff.mp h
    obtain ⟨-, rfl⟩ := Prod.mk.inj heq
    rcases ih hmore with hfound | ⟨hfirst, -⟩
    · first | exact Or.inl hfound | cases hfound
    · cases hfirst

/-- A path that a pattern matches begins with the pattern's literal, and is it where there is
nothing else. -/
theorem Pattern.starts (pattern : Pattern regexes) {path : List Char}
    (h : pattern.matches path = true) :
    literal pattern.source <+: path ∧
      ((literal pattern.source).length = pattern.source.length → path = pattern.source) := by
  obtain ⟨⟨tokens, detected⟩, hscan, hkind⟩ := Option.bind_eq_some_iff.mp pattern.compiled
  by_cases hwhole : (literal pattern.source).length = pattern.source.length
  · cases detected_of_literal hwhole hscan
    obtain hkind : Kind.exact = pattern.kind := Option.some.inj hkind
    have hpath : path = pattern.source := by simpa [Pattern.matches, ← hkind] using h
    exact ⟨hpath ▸ List.takeWhile_prefix _, fun _ => hpath⟩
  · refine ⟨?_, fun h => absurd h hwhole⟩
    rw [Pattern.matches] at h
    cases detected with
    | exact =>
      rw [← Option.some.inj hkind] at h
      exact (beq_iff_eq.mp h) ▸ List.takeWhile_prefix _
    | prefixed =>
      simp only [Option.ite_none_right_eq_some] at hkind
      obtain ⟨⟨before, hbefore⟩, hkind⟩ := hkind
      rw [← Option.some.inj hkind, ← hbefore] at h
      have hstarts : before <+: path := by simpa using h
      rw [← hbefore, literal, List.takeWhile_append]
      split_ifs
      · rwa [show ['*', '*'].takeWhile (!isWildcard ·) = [] by decide, List.append_nil]
      · exact (List.takeWhile_prefix _).trans hstarts
    | suffixed =>
      obtain ⟨rest, hrest⟩ : ∃ rest, pattern.source = '*' :: rest := by
        rcases head_of_suffixed hscan with hdetected | ⟨-, hhead⟩
        · cases hdetected
        · exact List.head?_eq_some_iff.mp hhead
      rw [hrest]
      exact List.nil_prefix
    | regex =>
      obtain ⟨isMatch, hnew, hkind⟩ := Option.map_eq_some_iff.mp hkind
      rw [← hkind] at h
      obtain ⟨rest, rfl⟩ := literal_of_scan hscan
      exact regexes.starts hnew h

/-! ## What is ignored -/

def Pattern.found (pattern : Pattern regexes) (path : RelPath) : Bool :=
  let text := decodePath path
  let parents := text.splitOn '/'
  pattern.matches text ||
    (List.range' 1 (parents.length - 1)).any fun count =>
      pattern.matches (joined (parents.take count))

/-- The last matching pattern decides, checked against the path and each parent. -/
def matchesOrParentMatches (patterns : List (Pattern regexes)) (path : RelPath) : Bool :=
  patterns.foldl (fun matched pattern =>
    if pattern.exclusion != matched then matched
    else if pattern.found path then !pattern.exclusion else matched) false

def exceptionCanMatchDescendant (patterns : List (Pattern regexes)) (directory : RelPath) : Bool :=
  let directory := decodePath directory ++ ['/']
  (patterns.filter (·.exclusion)).any fun pattern =>
    let before := literal pattern.source
    if before.length = pattern.source.length then directory.isPrefixOf before
    else before.isPrefixOf directory || directory.isPrefixOf before

theorem Pattern.found_iff (pattern : Pattern regexes) (h : path ≠ []) :
    pattern.found path = true ↔
      ∃ parent, parent <+: path ∧ parent ≠ [] ∧ pattern.matches (decodePath parent) = true := by
  have hparent : ∀ count, 0 < count →
      joined (((decodePath path).splitOn '/').take count) = decodePath (path.take count) := by
    intro count hcount
    rw [splitOn_decodePath h, ← List.map_take]
    exact joined_names (by simp [h]; omega)
  simp only [Pattern.found, Bool.or_eq_true, List.any_eq_true, List.mem_range'_1]
  constructor
  · rintro (hmatch | ⟨count, ⟨hpos, -⟩, hmatch⟩)
    · exact ⟨path, List.prefix_rfl, h, hmatch⟩
    · exact ⟨path.take count, List.take_prefix count path, by simp [h]; omega,
        hparent count hpos ▸ hmatch⟩
  · rintro ⟨parent, hparents, hne, hmatch⟩
    have hpos := List.length_pos_of_ne_nil hne
    rcases hparents.length_le.eq_or_lt with hlength | hlength
    · exact Or.inl (hparents.eq_of_length hlength ▸ hmatch)
    · refine Or.inr ⟨parent.length, ⟨hpos, ?_⟩, ?_⟩
      · rw [splitOn_decodePath h, List.length_map]
        omega
      · rw [hparent _ hpos, ← List.prefix_iff_eq_take.mp hparents]
        exact hmatch

/-- Skipping the patterns that would change nothing leaves the decision to the last. -/
theorem matchesOrParentMatches_eq (patterns : List (Pattern regexes)) (path : RelPath) :
    matchesOrParentMatches patterns path =
      (patterns.reverse.find? (·.found path)).any (!·.exclusion) := by
  rw [matchesOrParentMatches, List.foldl_eq_foldr_reverse]
  induction patterns.reverse with
  | nil => rfl
  | cons pattern patterns ih =>
    rw [List.foldr_cons, List.find?_cons, ih]
    cases hfound : pattern.found path
    · simp
    · cases hexclusion : pattern.exclusion <;> simp [hexclusion]

def ancestors (path : RelPath) : List RelPath := path.inits.filter (· ≠ [])

theorem mem_ancestors {path parent : RelPath} :
    parent ∈ ancestors path ↔ parent <+: path ∧ parent ≠ [] := by
  rw [ancestors, List.mem_filter, List.mem_inits, decide_eq_true_iff]

/-- The pattern that decides on a path: the last that matches it or a parent. -/
def deciding (patterns : List (Pattern regexes)) (path : RelPath) : Option (Pattern regexes) :=
  patterns.reverse.find? fun pattern =>
    (ancestors path).any fun parent => pattern.matches (decodePath parent)

theorem matchesOrParentMatches_deciding (patterns : List (Pattern regexes)) (h : path ≠ []) :
    matchesOrParentMatches patterns path = (deciding patterns path).any (!·.exclusion) := by
  have hfound : ∀ pattern : Pattern regexes, pattern.found path =
      (ancestors path).any fun parent => pattern.matches (decodePath parent) := by
    intro pattern
    rw [Bool.eq_iff_iff, pattern.found_iff h, List.any_eq_true]
    simp only [mem_ancestors, and_assoc]
  simp only [matchesOrParentMatches_eq, deciding, hfound]

/-! ## Pruning -/

variable {directory below : RelPath}

/-- An exception that matches below a directory may match there. -/
theorem exceptionCanMatchDescendant_of_matches {patterns : List (Pattern regexes)}
    {pattern : Pattern regexes} (hpattern : pattern ∈ patterns)
    (hexclusion : pattern.exclusion = true) (hdirectory : directory ≠ []) (hbelow : below ≠ [])
    (h : pattern.matches (decodePath (directory ++ below)) = true) :
    exceptionCanMatchDescendant patterns directory = true := by
  obtain ⟨hliteral, hwhole⟩ := pattern.starts h
  have htext : decodePath directory ++ ['/'] <+: decodePath (directory ++ below) := by
    rw [decodePath_append hdirectory hbelow]
    exact ⟨decodePath below, by simp⟩
  refine List.any_eq_true.mpr ⟨pattern, List.mem_filter.mpr ⟨hpattern, hexclusion⟩, ?_⟩
  by_cases hlength : (literal pattern.source).length = pattern.source.length
  · have hsame : literal pattern.source = pattern.source :=
      (List.takeWhile_prefix _).eq_of_length hlength
    simp only [if_pos hlength, List.isPrefixOf_iff_prefix]
    rwa [hsame, ← hwhole hlength]
  · simp only [if_neg hlength, Bool.or_eq_true, List.isPrefixOf_iff_prefix]
    exact List.prefix_or_prefix_of_prefix hliteral htext

theorem Pattern.found_below (pattern : Pattern regexes) (hdirectory : directory ≠ [])
    (below : RelPath) (h : pattern.found directory = true) :
    pattern.found (directory ++ below) = true := by
  rw [pattern.found_iff hdirectory] at h
  obtain ⟨parent, hparent, hne, hmatch⟩ := h
  rw [pattern.found_iff (List.append_ne_nil_of_left_ne_nil hdirectory below)]
  exact ⟨parent, hparent.trans (List.prefix_append directory below), hne, hmatch⟩

/-- Where no exception can match below a directory, one found there was found before. -/
theorem Pattern.found_of_below {patterns : List (Pattern regexes)} {pattern : Pattern regexes}
    (hpattern : pattern ∈ patterns) (hexclusion : pattern.exclusion = true)
    (hdirectory : directory ≠ []) (hnone : exceptionCanMatchDescendant patterns directory = false)
    (h : pattern.found (directory ++ below) = true) : pattern.found directory = true := by
  rw [pattern.found_iff (List.append_ne_nil_of_left_ne_nil hdirectory below)] at h
  obtain ⟨parent, hparent, hne, hmatch⟩ := h
  rw [pattern.found_iff hdirectory]
  rcases List.prefix_or_prefix_of_prefix hparent (List.prefix_append directory below) with
    hup | ⟨more, rfl⟩
  · exact ⟨parent, hup, hne, hmatch⟩
  · by_cases hmore : more = []
    · exact ⟨directory, List.prefix_rfl, hdirectory, by simpa [hmore] using hmatch⟩
    · have hcan := exceptionCanMatchDescendant_of_matches hpattern hexclusion hdirectory hmore
        hmatch
      rw [hnone] at hcan
      cases hcan

/-- Below an ignored directory where no exception can match, all is ignored. -/
theorem ignored_below {patterns : List (Pattern regexes)} (hdirectory : directory ≠ [])
    (hignored : matchesOrParentMatches patterns directory = true)
    (hnone : exceptionCanMatchDescendant patterns directory = false) (below : RelPath) :
    matchesOrParentMatches patterns (directory ++ below) = true := by
  rw [matchesOrParentMatches_eq] at hignored ⊢
  have hmem : ∀ pattern ∈ patterns.reverse, pattern ∈ patterns := fun _ => List.mem_reverse.mp
  generalize patterns.reverse = later at hignored hmem ⊢
  -- From the last pattern on: one found for both decides for both, and one found only below is an
  -- exclusion of paths, as an exception is found below only if it is found above.
  induction later with
  | nil => cases hignored
  | cons pattern earlier ih =>
    rw [List.find?_cons] at hignored ⊢
    cases habove : pattern.found directory with
    | true =>
      rw [habove] at hignored
      rw [pattern.found_below hdirectory below habove]
      exact hignored
    | false =>
      rw [habove] at hignored
      cases hbelow : pattern.found (directory ++ below) with
      | false => exact ih hignored fun other hother => hmem other (List.mem_cons_of_mem _ hother)
      | true =>
        cases hexclusion : pattern.exclusion with
        | false => simp [hexclusion]
        | true =>
          have hfound := Pattern.found_of_below (hmem pattern List.mem_cons_self) hexclusion
            hdirectory hnone hbelow
          rw [habove] at hfound
          cases hfound

/-! ## The walk -/

/-- An entry of a directory: what is no directory, an entry whose metadata cannot be read, a
directory that may not be listed, one whose listing fails, or its entries in the order of their
names. -/
inductive Tree
  | file
  | lost
  | denied
  | broken
  | directory (entries : List (Name × Tree))

inductive WalkError
  | reserved (path : RelPath)
  | metadata
  | permissionDenied
  | io
deriving DecidableEq

/-- `symlink_metadata`. -/
def Tree.isDir : Tree → Except WalkError Bool
  | .file => .ok false
  | .lost => .error .metadata
  | _ => .ok true

section Walk

variable (patterns : List (Pattern regexes)) (controls : List RelPath)

def ignored (path : RelPath) : Bool :=
  matchesOrParentMatches patterns path && !controls.any fun control => path.isPrefixOf control

mutual

/-- The paths that are included below a directory. -/
def walk (relative : RelPath) : Tree → Except WalkError (List RelPath)
  | .directory entries => walkEntries relative entries
  | .denied =>
    if relative ≠ [] ∧ matchesOrParentMatches patterns relative = true then .ok []
    else .error .permissionDenied
  | _ => .error .io

def walkEntries (relative : RelPath) : List (Name × Tree) → Except WalkError (List RelPath)
  | [] => .ok []
  | (name, tree) :: entries =>
    let path := relative ++ [name]
    if reserved name.bytes then .error (.reserved path)
    else do
      let directory ← tree.isDir
      let included ← (match ignored patterns controls path, directory with
        -- Only descend when an exception can select a descendant.
        | true, true => if exceptionCanMatchDescendant patterns path then walk path tree else .ok []
        | true, false => .ok []
        | false, true => (ancestors path ++ ·) <$> walk path tree
        | false, false => .ok (ancestors path))
      let rest ← walkEntries relative entries
      return included ++ rest

end

end Walk

/-! ## What a walk is to select -/

def Tree.entries : Tree → List (Name × Tree)
  | .directory entries => entries
  | _ => []

/-- A path leads from entry to entry. -/
def Listed : List (Name × Tree) → RelPath → Prop
  | _, [] => False
  | entries, name :: rest => ∃ tree, (name, tree) ∈ entries ∧ (rest = [] ∨ Listed tree.entries rest)

theorem not_listed_nil (path : RelPath) : ¬ Listed [] path := by
  cases path <;> simp [Listed]

theorem Listed.ne_nil {entries : List (Name × Tree)} (h : Listed entries path) : path ≠ [] := by
  rintro rfl
  exact h

theorem Listed.parent {entries : List (Name × Tree)} {parent : RelPath}
    (h : Listed entries (parent ++ below)) (hne : parent ≠ []) : Listed entries parent := by
  induction parent generalizing entries with
  | nil => exact absurd rfl hne
  | cons name parent ih =>
    obtain ⟨tree, htree, hrest⟩ := h
    by_cases hparent : parent = []
    · exact ⟨tree, htree, .inl hparent⟩
    · exact ⟨tree, htree, .inr (ih (hrest.resolve_left (by simp [hparent])) hparent)⟩

/-- Listed in a directory that is itself at `relative`. -/
def Below (relative : RelPath) (entries : List (Name × Tree)) (path : RelPath) : Prop :=
  ∃ below, path = relative ++ below ∧ Listed entries below

variable {tree : Tree}

theorem below_cons {relative path : RelPath} {name : Name} {entries : List (Name × Tree)} :
    Below relative ((name, tree) :: entries) path ↔
      (path = relative ++ [name] ∨ Below (relative ++ [name]) tree.entries path) ∨
        Below relative entries path := by
  constructor
  · rintro ⟨_ | ⟨first, rest⟩, rfl, h⟩
    · cases h
    · obtain ⟨child, hchild, hrest⟩ := h
      rcases List.mem_cons.mp hchild with heq | hchild
      · cases heq
        rcases hrest with rfl | hrest
        · exact .inl (.inl rfl)
        · exact .inl (.inr ⟨rest, by simp, hrest⟩)
      · exact .inr ⟨first :: rest, rfl, child, hchild, hrest⟩
  · rintro ((rfl | ⟨rest, rfl, hrest⟩) | ⟨_ | ⟨first, rest⟩, rfl, h⟩)
    · exact ⟨[name], rfl, tree, List.mem_cons_self, .inl rfl⟩
    · exact ⟨name :: rest, by simp, tree, List.mem_cons_self, .inr hrest⟩
    · cases h
    · obtain ⟨child, hchild, hrest⟩ := h
      exact ⟨first :: rest, rfl, child, List.mem_cons_of_mem _ hchild, hrest⟩

theorem not_below_of_isDir (h : tree.isDir = .ok false) {relative path : RelPath} :
    ¬ Below relative tree.entries path := by
  cases tree with
  | file => exact fun ⟨below, _, hlisted⟩ => not_listed_nil below hlisted
  | lost | denied | broken | directory => cases h

section Selects

variable {patterns : List (Pattern regexes)} {controls : List RelPath}

theorem ignored_of_prefix (hpath : path ≠ []) (h : ignored patterns controls path = true)
    (hnone : exceptionCanMatchDescendant patterns path = false) :
    ignored patterns controls (path ++ below) = true := by
  simp only [ignored, Bool.and_eq_true, Bool.not_eq_true', List.any_eq_false,
    List.isPrefixOf_iff_prefix] at h ⊢
  refine ⟨ignored_below hpath h.1 hnone below, fun control hcontrol hstart => ?_⟩
  exact h.2 control hcontrol ((List.prefix_append path below).trans hstart)

def Unreserved (path : RelPath) : Prop := ∀ name ∈ path, reserved name.bytes = false

/-- `included` is what is to be selected of the paths `found`, by names that were checked. -/
structure Selects (patterns : List (Pattern regexes)) (controls : List RelPath)
    (found : RelPath → Prop) (included : List RelPath) : Prop where
  sound : ∀ path ∈ included, path ≠ [] ∧ ∃ kept, found kept ∧ path <+: kept ∧
    ignored patterns controls kept = false
  complete : ∀ kept, found kept → ignored patterns controls kept = false →
    ∀ path ≠ [], path <+: kept → path ∈ included
  unreserved : ∀ path ∈ included, Unreserved path

theorem Selects.nil {found : RelPath → Prop}
    (h : ∀ path, found path → ignored patterns controls path = true) :
    Selects patterns controls found [] where
  sound path hpath := by cases hpath
  complete kept hkept hignored := by
    rw [h kept hkept] at hignored
    cases hignored
  unreserved path hpath := by cases hpath

theorem Selects.append {found found' : RelPath → Prop} {included included' : List RelPath}
    (h : Selects patterns controls found included)
    (h' : Selects patterns controls found' included') :
    Selects patterns controls (fun path => found path ∨ found' path) (included ++ included') where
  sound path hpath := by
    rcases List.mem_append.mp hpath with hpath | hpath
    · obtain ⟨hne, kept, hkept, hrest⟩ := h.sound path hpath
      exact ⟨hne, kept, .inl hkept, hrest⟩
    · obtain ⟨hne, kept, hkept, hrest⟩ := h'.sound path hpath
      exact ⟨hne, kept, .inr hkept, hrest⟩
  complete kept hkept hignored path hne hstart := by
    rcases hkept with hkept | hkept
    · exact List.mem_append_left _ (h.complete kept hkept hignored path hne hstart)
    · exact List.mem_append_right _ (h'.complete kept hkept hignored path hne hstart)
  unreserved path hpath :=
    (List.mem_append.mp hpath).elim (h.unreserved path) (h'.unreserved path)

theorem Selects.kept {path : RelPath} (h : ignored patterns controls path = false)
    (hnames : Unreserved path) : Selects patterns controls (· = path) (ancestors path) where
  sound parent hparent := by
    obtain ⟨hstart, hne⟩ := mem_ancestors.mp hparent
    exact ⟨hne, path, rfl, hstart, h⟩
  complete kept hkept _ parent hne hstart := mem_ancestors.mpr ⟨hkept ▸ hstart, hne⟩
  unreserved parent hparent name hname :=
    hnames name ((mem_ancestors.mp hparent).1.subset hname)

/-- An entry is selected with what is selected below it. -/
theorem Selects.entry {directory : Bool} {chosen : List RelPath} (hdir : tree.isDir = .ok directory)
    (hpath : Unreserved path) (hne : path ≠ [])
    (hwalk : ∀ included, walk patterns controls path tree = .ok included →
      Selects patterns controls (Below path tree.entries) included)
    (h : (match ignored patterns controls path, directory with
      | true, true => if exceptionCanMatchDescendant patterns path then
          walk patterns controls path tree else .ok []
      | true, false => .ok []
      | false, true => (ancestors path ++ ·) <$> walk patterns controls path tree
      | false, false => .ok (ancestors path)) = .ok chosen) :
    Selects patterns controls (fun found => found = path ∨ Below path tree.entries found)
      chosen := by
  cases hignored : ignored patterns controls path with
  | true =>
    rw [hignored] at h
    have hself : Selects patterns controls (· = path) [] := Selects.nil fun _ heq => heq ▸ hignored
    cases directory with
    | false =>
      cases h
      exact hself.append (Selects.nil fun _ hbelow => absurd hbelow (not_below_of_isDir hdir))
    | true =>
      simp only at h
      split_ifs at h with hcan
      · exact hself.append (hwalk chosen h)
      · cases h
        refine hself.append (Selects.nil ?_)
        rintro _ ⟨below, rfl, -⟩
        exact ignored_of_prefix hne hignored (Bool.eq_false_iff.mpr hcan)
  | false =>
    rw [hignored] at h
    have hself := Selects.kept hignored hpath
    cases directory with
    | false =>
      cases h
      rw [← List.append_nil (ancestors path)]
      exact hself.append (Selects.nil fun _ hbelow => absurd hbelow (not_below_of_isDir hdir))
    | true =>
      obtain ⟨below, hbelow, rfl⟩ := map_eq_ok.mp h
      exact hself.append (hwalk below hbelow)

mutual

/-- A walk selects what it is to select, though it does not visit all. -/
theorem selects_of_walk {relative : RelPath} (hrelative : Unreserved relative) (tree : Tree)
    {included : List RelPath} (h : walk patterns controls relative tree = .ok included) :
    Selects patterns controls (Below relative tree.entries) included := by
  cases tree with
  | directory entries => exact selects_of_walkEntries hrelative entries h
  | denied =>
    rw [walk] at h
    split_ifs at h
    cases h
    exact Selects.nil fun _ ⟨below, _, hlisted⟩ => absurd hlisted (not_listed_nil below)
  | file | lost | broken => cases h

theorem selects_of_walkEntries {relative : RelPath} (hrelative : Unreserved relative)
    (entries : List (Name × Tree)) {included : List RelPath}
    (h : walkEntries patterns controls relative entries = .ok included) :
    Selects patterns controls (Below relative entries) included := by
  match entries with
  | [] =>
    cases h
    exact Selects.nil fun _ ⟨below, _, hlisted⟩ => absurd hlisted (not_listed_nil below)
  | (name, tree) :: entries =>
    rw [walkEntries] at h
    by_cases hreserved : reserved name.bytes = true
    · rw [if_pos hreserved] at h
      cases h
    have hpath : Unreserved (relative ++ [name]) :=
      List.forall_mem_append.mpr ⟨hrelative, by simpa using hreserved⟩
    simp only [if_neg hreserved, bind_eq_ok, pure_eq_ok] at h
    obtain ⟨directory, hdir, chosen, hchosen, rest, hrest, rfl⟩ := h
    rw [show Below relative ((name, tree) :: entries) = _ from funext fun _ => propext below_cons]
    exact (Selects.entry hdir hpath (by simp) (fun _ => selects_of_walk hpath tree) hchosen).append
      (selects_of_walkEntries hrelative entries hrest)

end

/-- What a walk over a whole context is to select. -/
theorem Selects.mem_iff {entries : List (Name × Tree)} {included : List RelPath}
    (h : Selects patterns controls (Below [] entries) included) (path : RelPath) :
    path ∈ included ↔ Listed entries path ∧ ∃ kept, path <+: kept ∧
      (Listed entries kept ∧ (deciding patterns kept).all (·.exclusion) = true ∨
        kept ∈ controls) := by
  have hbelow : ∀ kept, Below [] entries kept ↔ Listed entries kept := by simp [Below]
  have hignored : ∀ kept, Listed entries kept → (ignored patterns controls kept = false ↔
      (deciding patterns kept).all (·.exclusion) = true ∨
        ∃ control ∈ controls, kept <+: control) := by
    intro kept hkept
    rw [ignored, matchesOrParentMatches_deciding patterns hkept.ne_nil]
    cases deciding patterns kept <;> simp [imp_iff_not_or]
  constructor
  · intro hpath
    obtain ⟨hne, kept, hkept, ⟨below, rfl⟩, hkeeps⟩ := h.sound path hpath
    rw [hbelow] at hkept
    refine ⟨hkept.parent hne, ?_⟩
    rcases (hignored _ hkept).mp hkeeps with hdecided | ⟨control, hcontrol, hstart⟩
    · exact ⟨path ++ below, List.prefix_append _ _, Or.inl ⟨hkept, hdecided⟩⟩
    · exact ⟨control, (List.prefix_append _ _).trans hstart, Or.inr hcontrol⟩
  · rintro ⟨hpath, kept, hstart, ⟨hkept, hdecided⟩ | hcontrol⟩
    · exact h.complete kept ((hbelow kept).mpr hkept) ((hignored kept hkept).mpr (Or.inl hdecided))
        path hpath.ne_nil hstart
    · exact h.complete path ((hbelow path).mpr hpath)
        ((hignored path hpath).mpr (Or.inr ⟨kept, hcontrol, hstart⟩)) path hpath.ne_nil
        List.prefix_rfl

mutual

/-- Every name may be used, and every directory listed. -/
def readable : Tree → Bool
  | .file => true
  | .directory entries => readableEntries entries
  | _ => false

def readableEntries : List (Name × Tree) → Bool
  | [] => true
  | (name, tree) :: entries => !reserved name.bytes && readable tree && readableEntries entries

end

mutual

theorem walk_ok (relative : RelPath) (tree : Tree) (hdir : tree.isDir = .ok true)
    (h : readable tree = true) :
    ∃ included, walk patterns controls relative tree = .ok included := by
  cases tree with
  | directory entries => exact walkEntries_ok relative entries h
  | file => cases hdir
  | lost | denied | broken => cases h

theorem walkEntries_ok (relative : RelPath) (entries : List (Name × Tree))
    (h : readableEntries entries = true) :
    ∃ included, walkEntries patterns controls relative entries = .ok included := by
  match entries with
  | [] => exact ⟨[], rfl⟩
  | (name, tree) :: entries =>
    simp only [readableEntries, Bool.and_eq_true, Bool.not_eq_true'] at h
    obtain ⟨⟨hname, htree⟩, hentries⟩ := h
    obtain ⟨rest, hrest⟩ := walkEntries_ok relative entries hentries
    obtain ⟨directory, hdir⟩ : ∃ directory, tree.isDir = .ok directory := by
      cases tree with
      | lost => cases htree
      | file | denied | broken | directory => exact ⟨_, rfl⟩
    have hbelow : directory = true →
        ∃ included, walk patterns controls (relative ++ [name]) tree = .ok included :=
      fun hd => walk_ok _ tree (hd ▸ hdir) htree
    rw [walkEntries, if_neg (by simp [hname])]
    rw [hdir, ok_bind, hrest]
    cases directory with
    | false =>
      cases ignored patterns controls (relative ++ [name]) <;> exact ⟨_, rfl⟩
    | true =>
      obtain ⟨below, hbelow⟩ := hbelow rfl
      rw [hbelow]
      cases ignored patterns controls (relative ++ [name])
      · exact ⟨_, rfl⟩
      · cases exceptionCanMatchDescendant patterns (relative ++ [name]) <;> exact ⟨_, rfl⟩

end

end Selects

/-! ## Reading patterns -/

def trimmed (text : List Char) : List Char :=
  (text.dropWhile isWhitespace).rdropWhile isWhitespace

/-- Go's `path.Clean`: the shortest lexically equivalent slash path. -/
def clean (path : List Char) : List Char :=
  let rooted := path.head? == some '/'
  let parts := (path.splitOn '/').foldl (fun parts part =>
    if part = [] ∨ part = ['.'] then parts
    else if part = ['.', '.'] then
      if parts.getLast?.any (· ≠ ['.', '.']) then parts.dropLast
      else if rooted then parts
      else parts ++ [part]
    else parts ++ [part]) []
  match rooted, (joined parts).isEmpty with
  | true, _ => '/' :: joined parts
  | false, true => ['.']
  | false, false => joined parts

def matcher (regexes : Regexes) (texts : List (List Char)) :
    Except String (List (Pattern regexes)) :=
  ((texts.map trimmed).filter (· ≠ [])).mapM fun text =>
    let pattern := clean text
    let exclusion := pattern.head? == some '!'
    let source := if exclusion then pattern.tail else pattern
    if exclusion ∧ source = [] then .error "illegal exclusion pattern: \"!\""
    else match h : compile regexes source with
      | none => .error ("invalid build context ignore pattern: " ++ String.ofList source)
      | some kind => .ok ⟨source, exclusion, kind, h⟩

/-- The lines of a text, each without the newline that ends it. -/
def lines (text : List Char) : List (List Char) :=
  let parts := text.splitOn '\n'
  (if parts.getLast? = some [] then parts.dropLast else parts).map fun line =>
    if line.getLast? = some '\r' then line.dropLast else line

/-- Docker's `.dockerignore` reader: comments before trimming, a leading BOM, cleaned paths, and
anchoring at the context root. -/
def ignoreFilePatterns (content : List UInt8) : List (List Char) :=
  let content := decode content
  let content := if content.head? = some '\uFEFF' then content.tail else content
  ((lines content).filter (·.head? ≠ some '#')).filterMap fun line =>
    let line := trimmed line
    let invert := line.head? = some '!'
    let pattern := if invert then trimmed line.tail else line
    if line = [] then none
    else
      let pattern := if pattern = [] then [] else clean pattern
      let pattern := if 1 < pattern.length ∧ pattern.head? = some '/' then pattern.tail else pattern
      some (if invert then '!' :: pattern else pattern)

/-! ## Selection -/

theorem map_decode_injective {path other : RelPath} (hpath : Unreserved path)
    (hother : Unreserved other)
    (h : path.map (fun name => decode name.bytes) = other.map fun name => decode name.bytes) :
    path = other := by
  induction path generalizing other with
  | nil => exact (List.map_eq_nil_iff.mp h.symm).symm
  | cons name path ih =>
    cases other with
    | nil => cases h
    | cons next other =>
      obtain ⟨hfirst, hrest⟩ := List.cons.inj h
      have hbytes := decode_injective (hpath name List.mem_cons_self)
        (hother next List.mem_cons_self) hfirst
      have hname : name = next := by
        cases name
        cases next
        cases hbytes
        rfl
      rw [hname, ih (fun n hn => hpath n (List.mem_cons_of_mem _ hn))
        (fun n hn => hother n (List.mem_cons_of_mem _ hn)) hrest]

theorem decodePath_injective {path other : RelPath} (hpath : Unreserved path)
    (hother : Unreserved other) (hne : path ≠ []) (hne' : other ≠ [])
    (h : decodePath path = decodePath other) : path = other :=
  map_decode_injective hpath hother (by rw [← splitOn_decodePath hne, ← splitOn_decodePath hne', h])

inductive SelectError
  | invalid (message : String)
  | io (error : WalkError)
deriving DecidableEq

def RESERVED : String :=
  "a name or ignore rule uses a character in U+10FF80-U+10FFFF, which Ployz reserves for raw filename " ++
  "bytes; rename or remove it"

/-- What selects a context: the ignore file, the exclusions of a Railpack config and the paths that
are kept even when a pattern excludes them. -/
structure Rules where
  ignore : List UInt8
  excludes : List (List Char)
  controls : List RelPath

def Rules.patterns (rules : Rules) : List (List Char) :=
  ignoreFilePatterns rules.ignore ++ rules.excludes

def Rules.reserved (rules : Rules) : Bool :=
  Ignore.reserved rules.ignore || rules.excludes.any (·.any isReserved)

/-- `select`, with what its ignore rules read. -/
def select (regexes : Regexes) (rules : Rules) (root : Tree) :
    Except SelectError (List RelPath) := do
  if rules.reserved then throw (.invalid RESERVED)
  let patterns ← (matcher regexes rules.patterns).mapError .invalid
  (walk patterns rules.controls [] root).mapError .io

/-- Selection from a readable context succeeds, and takes exactly the paths that the last matching
pattern over the path and its parents does not exclude, the control paths, and the parents of those;
and the texts that are matched tell the paths apart. -/
theorem walk_selects_exactly (regexes : Regexes) (rules : Rules) (entries : List (Name × Tree)) :
    (∀ patterns, rules.reserved = false → matcher regexes rules.patterns = .ok patterns →
      readable (.directory entries) = true →
      ∃ included, select regexes rules (.directory entries) = .ok included) ∧
    (∀ included, select regexes rules (.directory entries) = .ok included →
      ∃ patterns, matcher regexes rules.patterns = .ok patterns ∧
        (∀ path, path ∈ included ↔ Listed entries path ∧ ∃ kept, path <+: kept ∧
          (Listed entries kept ∧
              (deciding patterns kept).all (·.exclusion) = true ∨
            kept ∈ rules.controls)) ∧
        ∀ path ∈ included, Unreserved path) ∧
    ∀ path other, Unreserved path → Unreserved other → path ≠ [] → other ≠ [] →
      decodePath path = decodePath other → path = other := by
  refine ⟨fun patterns hreserved hpatterns hreadable => ?_, fun included h => ?_,
    fun _ _ => decodePath_injective⟩
  · have hwalk : ∃ included, walk patterns rules.controls [] (.directory entries) = .ok included :=
      walk_ok [] _ rfl hreadable
    simpa only [select, guard_eq_ok, bind_eq_ok, mapError_eq_ok, hreserved, hpatterns,
      Bool.false_eq_true, not_false_eq_true, true_and, Except.ok.injEq, exists_eq_left'] using hwalk
  · simp only [select, guard_eq_ok, bind_eq_ok, mapError_eq_ok] at h
    obtain ⟨-, patterns, hpatterns, hwalk⟩ := h
    have hselects := selects_of_walk (by simp [Unreserved]) _ hwalk
    exact ⟨patterns, hpatterns, hselects.mem_iff, hselects.unreserved⟩

namespace Sample

/-- What `[^/]*` may leave of a text. -/
def afterStar : List Char → List (List Char)
  | [] => [[]]
  | c :: text => (c :: text) :: if c = '/' then [] else afterStar text

/-- Expressions of characters and `[^/]*`. -/
def isMatch : List Token → List Char → Bool
  | [], text => text.isEmpty
  | .lit c :: tokens, text => text.head? = some c && isMatch tokens text.tail
  | .star :: tokens, text => (afterStar text).any (isMatch tokens)
  | _, _ => false

theorem starts_of_isMatch {literals : List Char} {rest : List Token} {text : List Char}
    (h : isMatch (literals.map .lit ++ rest) text = true) : literals <+: text := by
  induction literals generalizing text with
  | nil => exact List.nil_prefix
  | cons c literals ih =>
    rw [List.map_cons, List.cons_append, isMatch, Bool.and_eq_true, decide_eq_true_eq] at h
    obtain ⟨text, rfl⟩ := List.head?_eq_some_iff.mp h.1
    exact List.cons_prefix_cons.mpr ⟨rfl, ih h.2⟩

def plain : Regexes where
  new tokens := some (isMatch tokens)
  starts := by
    rintro literals rest _ text ⟨⟩ h
    exact starts_of_isMatch h

def docs : Name := ⟨"docs".toUTF8.data.toList, by decide, by decide, by decide⟩
def drafts : Name := ⟨"drafts".toUTF8.data.toList, by decide, by decide, by decide⟩
def guide : Name := ⟨"guide.md".toUTF8.data.toList, by decide, by decide, by decide⟩

/-- `docs` is ignored, but for the Markdown in it. -/
def rules : Rules := ⟨"docs\n!docs/*.md\n".toUTF8.data.toList, [], []⟩

def entries : List (Name × Tree) := [(docs, .directory [(drafts, .file), (guide, .file)])]

/-- The directory is skipped, and what an exception keeps below it is selected. -/
theorem exception_below_skipped : ∃ patterns included,
    matcher plain rules.patterns = .ok patterns ∧ ignored patterns rules.controls [docs] = true ∧
    select plain rules (.directory entries) = .ok included ∧ [docs, guide] ∈ included := by
  obtain ⟨patterns, hpatterns, hskipped, hkept⟩ := exists_ok (fun patterns =>
      ignored patterns rules.controls [docs] = true ∧
        (deciding patterns [docs, guide]).all (·.exclusion) = true)
    (by decide +kernel : succeeds (matcher plain rules.patterns) _ = true)
  obtain ⟨hselects, hexactly, -⟩ := walk_selects_exactly plain rules entries
  obtain ⟨included, hincluded⟩ :=
    hselects patterns (by decide +kernel) hpatterns (by decide +kernel)
  obtain ⟨others, hothers, hmem, -⟩ := hexactly included hincluded
  obtain rfl := Except.ok.inj (hpatterns.symm.trans hothers)
  have hlisted : Listed entries [docs, guide] :=
    ⟨_, List.mem_singleton.mpr rfl, .inr ⟨.file, by simp [Tree.entries], .inl rfl⟩⟩
  exact ⟨patterns, included, hpatterns, hskipped, hincluded,
    (hmem _).mpr ⟨hlisted, _, List.prefix_rfl, .inl ⟨hlisted, hkept⟩⟩⟩

end Sample

end Ployz.Ignore
