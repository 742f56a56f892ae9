import Etude.Base.ReadShow

/-!
# ShowString — string literals as `show` of Haskell writes them

A text between double quotes.  What is not printable ASCII is escaped, and the empty escape `\&`
stands behind an escape that the next character would continue.  `readString` reads the literals
that are written so; hexadecimal and octal numbers, `\^A` and gaps are not among them.
-/

namespace Etude
namespace Base
namespace Read

/-! ## Writing -/

/-- The names of the characters up to the space. -/
def asciiTab : List Str :=
  ["NUL", "SOH", "STX", "ETX", "EOT", "ENQ", "ACK", "BEL", "BS", "HT", "LF", "VT", "FF", "CR",
    "SO", "SI", "DLE", "DC1", "DC2", "DC3", "DC4", "NAK", "SYN", "ETB", "CAN", "EM", "SUB", "ESC",
    "FS", "GS", "RS", "US", "SP"].map String.toList

/-- The control characters that have a letter. -/
def letters : List (ℕ × Char) :=
  [(7, 'a'), (8, 'b'), (9, 't'), (10, 'n'), (11, 'v'), (12, 'f'), (13, 'r')]

def isDec (c : Char) : Bool :=
  (valDig 10 c).isSome

/-- `s`, behind an escape that a character with `p` would continue. -/
def protectEsc (p : Char → Bool) : Str → Str
  | [] => []
  | c :: s => if p c then '\\' :: '&' :: c :: s else c :: s

/-- The escape of a control character, without the backslash. -/
def showControl (n : ℕ) (s : Str) : Str :=
  match letters.lookup n with
  | some letter => letter :: s
  | none =>
    -- `SO` in front of an `H` would be read as `SOH`.
    if n = 14 then "SO".toList ++ protectEsc (· = 'H') s
    else asciiTab.getD n [] ++ s

def showLitChar (c : Char) (s : Str) : Str :=
  -- Digits behind the number would belong to it.
  if 0x7f < c.toNat then '\\' :: (showNat c.toNat ++ protectEsc isDec s)
  else if c.toNat = 0x7f then '\\' :: ("DEL".toList ++ s)
  else if c = '\\' then '\\' :: '\\' :: s
  else if 0x20 ≤ c.toNat then c :: s
  else '\\' :: showControl c.toNat s

def showLitString (cs s : Str) : Str :=
  cs.foldr (fun c s => if c = '"' then '\\' :: '"' :: s else showLitChar c s) s

/-- `shows`, of a string. -/
def showString (cs s : Str) : Str :=
  '"' :: showLitString cs ('"' :: s)

def showItems : List Str → Str → Str
  | [], s => ']' :: s
  | x :: xs, s => ',' :: showString x (showItems xs s)

/-- `shows`, of a list of strings. -/
def showStrings : List Str → Str → Str
  | [], s => '[' :: ']' :: s
  | x :: xs, s => '[' :: showString x (showItems xs s)

/-! ## Reading -/

/-- The names of characters, but for `SO`, which another one continues. -/
def names : List (Str × Char) :=
  ("DEL".toList, '\x7f') ::
    (asciiTab.zipIdx.filter fun p => p.2 ≠ 14).map fun p => (p.1, Char.ofNat p.2)

def readName (s : Str) : Option (Char × Str) :=
  match names.find? fun p => p.1.isPrefixOf s with
  | some p => some (p.2, s.drop p.1.length)
  | none => if "SO".toList.isPrefixOf s then some ('\x0e', s.drop 2) else none

/-- What follows the backslash. -/
def readEscape : Str → Option (Char × Str)
  | [] => none
  | c :: s =>
    if isDec c then
      match lexDigits 10 (c :: s) with
      | some (n, rest) => if n.isValidChar then some (Char.ofNat n, rest) else none
      | none => none
    else if c = '\\' ∨ c = '"' ∨ c = '\'' then some (c, s)
    else
      match letters.find? fun p => p.2 = c with
      | some p => some (Char.ofNat p.1, s)
      | none => readName (c :: s)

/-- A character of a literal; the empty escape is none. -/
def readLitChar : Str → Option (Option Char × Str)
  | [] => none
  | c :: s =>
    if c = '\\' then
      if s.head? = some '&' then some (none, s.tail)
      else (readEscape s).map fun p => (some p.1, p.2)
    else some (some c, s)

theorem length_moreDigits_le (base n : ℕ) (s : Str) :
    (moreDigits base n s).2.length ≤ s.length := by
  induction s generalizing n with
  | nil =>
      simp [moreDigits]
  | cons c cs ih =>
      rw [moreDigits]
      split
      · exact Nat.le_succ_of_le (ih _)
      · exact Nat.le_refl _

theorem length_readName_le {s rest : Str} {c : Char} (h : readName s = some (c, rest)) :
    rest.length ≤ s.length := by
  unfold readName at h
  split at h
  · cases h
    simp
  · split_ifs at h
    cases h
    simp

theorem length_readEscape_le {s rest : Str} {c : Char} (h : readEscape s = some (c, rest)) :
    rest.length ≤ s.length := by
  cases s with
  | nil =>
      cases h
  | cons d s =>
      rw [readEscape] at h
      split_ifs at h
      · cases hlex : lexDigits 10 (d :: s) with
        | none =>
            rw [hlex] at h
            cases h
        | some p =>
            rcases p with ⟨n, more⟩
            simp only [hlex] at h
            split_ifs at h
            cases h
            rw [lexDigits, Option.map_eq_some_iff] at hlex
            rcases hlex with ⟨e, -, hmore⟩
            have hle := length_moreDigits_le 10 e s
            rw [hmore] at hle
            exact Nat.le_succ_of_le hle
      · cases h
        exact Nat.le_succ _
      · split at h
        · cases h
          exact Nat.le_succ _
        · exact length_readName_le h

/-- `readLitChar` makes progress. -/
theorem length_readLitChar_lt {s rest : Str} {c : Option Char}
    (h : readLitChar s = some (c, rest)) : rest.length < s.length := by
  cases s with
  | nil =>
      cases h
  | cons d s =>
      rw [readLitChar] at h
      split_ifs at h
      · cases h
        rw [List.length_tail, List.length_cons]
        omega
      · rcases Option.map_eq_some_iff.mp h with ⟨p, hp, heq⟩
        cases heq
        exact Nat.lt_succ_of_le (length_readEscape_le hp)
      · cases h
        exact Nat.lt_succ_self _

/-- The characters up to the closing quote, and what follows it. -/
def readLitString (s : Str) : Option (Str × Str) :=
  if s.head? = some '"' then some ([], s.tail)
  else
    match _h : readLitChar s with
    | none => none
    | some (c, rest) => (readLitString rest).map fun p => (c.toList ++ p.1, p.2)
termination_by s.length
decreasing_by exact length_readLitChar_lt _h

def readString : Str → Option (Str × Str)
  | '"' :: s => readLitString s
  | _ => none

theorem length_readLitString_le {s rest cs : Str} (h : readLitString s = some (cs, rest)) :
    rest.length ≤ s.length := by
  induction s using readLitString.induct generalizing cs with
  | case1 s hs =>
      rw [readLitString, if_pos hs] at h
      cases h
      simp
  | case2 s hs hnone =>
      rw [readLitString, if_neg hs] at h
      split at h
      · cases h
      · rename_i hsome
        rw [hnone] at hsome
        cases hsome
  | case3 s hs c rest' hsome ih =>
      have hlt := length_readLitChar_lt hsome
      rw [readLitString, if_neg hs] at h
      split at h
      · cases h
      · rename_i hsome'
        rw [hsome] at hsome'
        cases hsome'
        rcases Option.map_eq_some_iff.mp h with ⟨p, hp, heq⟩
        cases heq
        have := ih hp
        omega

theorem length_readString_lt {s rest cs : Str} (h : readString s = some (cs, rest)) :
    rest.length < s.length := by
  unfold readString at h
  split at h
  · exact Nat.lt_succ_of_le (length_readLitString_le h)
  · cases h

/-- The elements of a list, up to the closing bracket, one at least. -/
def readItems (s : Str) : Option (List Str × Str) :=
  match _h : readString s with
  | some (item, ',' :: rest) => (readItems rest).map fun p => (item :: p.1, p.2)
  | some (item, ']' :: rest) => some ([item], rest)
  | _ => none
termination_by s.length
decreasing_by
  have hlt := length_readString_lt _h
  rw [List.length_cons] at hlt
  exact Nat.lt_of_succ_lt hlt

def readStrings : Str → Option (List Str × Str)
  | '[' :: ']' :: s => some ([], s)
  | '[' :: s => readItems s
  | _ => none

/-! ## Escapes are read back -/

/-- In a table of which no entry continues another one, the entry in front of a text is found. -/
theorem find?_isPrefixOf {α : Type} {table : List (Str × α)}
    (hfree : ∀ p ∈ table, ∀ q ∈ table, p.1 <+: q.1 → p = q) {p : Str × α} (hp : p ∈ table)
    (s : Str) : (table.find? fun q => q.1.isPrefixOf (p.1 ++ s)) = some p := by
  have hself : p.1.isPrefixOf (p.1 ++ s) = true := by simp
  cases hfind : table.find? fun q => q.1.isPrefixOf (p.1 ++ s) with
  | none =>
      exact absurd hself (List.find?_eq_none.mp hfind p hp)
  | some q =>
      have hq : q ∈ table := List.mem_of_find?_eq_some hfind
      have hprefix : q.1 <+: p.1 ++ s := by
        have hfound := List.find?_some hfind
        rwa [List.isPrefixOf_iff_prefix] at hfound
      -- Two names at the start of one text: the longer one continues the other.
      rcases List.prefix_or_prefix_of_prefix hprefix (List.prefix_append p.1 s) with h | h
      · rw [hfree q hq p hp h]
      · rw [hfree p hp q hq h]

theorem names_free : ∀ p ∈ names, ∀ q ∈ names, p.1 <+: q.1 → p = q := by
  decide

theorem readName_append {p : Str × Char} (hp : p ∈ names) (s : Str) :
    readName (p.1 ++ s) = some (p.2, s) := by
  rw [readName, find?_isPrefixOf names_free hp s]
  simp

theorem names_SO : ∀ p ∈ names, ¬ p.1 <+: "SO".toList ∧
    ("SO".toList <+: p.1 → p.1 = "SOH".toList) := by
  decide

/-- `SOH` is the one name that goes on behind `SO`. -/
theorem readName_SO {s : Str} (hs : s.head? ≠ some 'H') :
    readName ("SO".toList ++ s) = some ('\x0e', s) := by
  have hnone : (names.find? fun p => p.1.isPrefixOf ("SO".toList ++ s)) = none := by
    rw [List.find?_eq_none]
    intro p hp hfound
    rw [List.isPrefixOf_iff_prefix] at hfound
    rcases names_SO p hp with ⟨hshort, hlong⟩
    rcases List.prefix_or_prefix_of_prefix hfound (List.prefix_append "SO".toList s) with h | h
    · exact hshort h
    · rw [hlong h] at hfound
      rcases hfound with ⟨t, ht⟩
      have hname : "SOH".toList ++ t = "SO".toList ++ 'H' :: t := rfl
      have htail : 'H' :: t = s := List.append_cancel_left (hname.symm.trans ht)
      rw [← htail] at hs
      exact hs rfl
  rw [readName, hnone]
  simp

/-! ## Characters are read back -/

theorem protectEsc_head {p : Char → Bool} (hp : p '\\' = false) {s : Str} {c : Char}
    (h : c ∈ (protectEsc p s).head?) : p c = false := by
  cases s with
  | nil =>
      cases h
  | cons d s =>
      rw [protectEsc] at h
      by_cases hd : p d
      · rw [if_pos hd] at h
        cases h
        exact hp
      · rw [if_neg hd] at h
        cases h
        simpa using hd

theorem readEscape_number {n : ℕ} (hn : n.isValidChar) {s : Str}
    (hs : ∀ c ∈ s.head?, isDec c = false) :
    readEscape (showNat n ++ s) = some (Char.ofNat n, s) := by
  have hlex : lexDigits 10 (showNat n ++ s) = some (n, s) := by
    have hrest : ∀ c ∈ s.head?, valDig 10 c = none := by
      intro c hc
      simpa [isDec] using hs c hc
    rw [showNat, lexDigits_map (padDigits_one_ne_nil n) (fun _ hd => padDigits_lt hd) hrest,
      ofDigits_padDigits]
  rcases exists_showNat_cons n with ⟨d, hd, cs, hcs⟩
  have hdec : isDec (Nat.digitChar d) = true := by
    rw [isDec, valDig_digitChar d hd]
    rfl
  rw [hcs, List.cons_append] at hlex ⊢
  rw [readEscape, if_pos hdec, hlex]
  exact if_pos hn

/-- The characters with which only names start. -/
def StartsName (c : Char) : Prop :=
  isDec c = false ∧ ¬ (c = '\\' ∨ c = '"' ∨ c = '\'') ∧ (letters.find? fun p => p.2 = c) = none

instance (c : Char) : Decidable (StartsName c) :=
  inferInstanceAs (Decidable (_ ∧ _ ∧ _))

theorem readEscape_name {c : Char} (hc : StartsName c) (s : Str) :
    readEscape (c :: s) = readName (c :: s) := by
  rcases hc with ⟨hdec, hquote, hletter⟩
  rw [readEscape, if_neg (by simp [hdec]), if_neg hquote, hletter]

theorem startsName_names : ∀ p ∈ names, ∃ c, p.1.head? = some c ∧ StartsName c := by
  intro p hp
  have h : ∀ p ∈ names, (p.1.head?.any fun c => decide (StartsName c)) = true := by
    decide
  have hany := h p hp
  cases hhead : p.1.head? with
  | none =>
      rw [hhead] at hany
      cases hany
  | some c =>
      rw [hhead] at hany
      exact ⟨c, rfl, of_decide_eq_true hany⟩

theorem readEscape_names {p : Str × Char} (hp : p ∈ names) (s : Str) :
    readEscape (p.1 ++ s) = some (p.2, s) := by
  rcases startsName_names p hp with ⟨c, hhead, hc⟩
  rcases List.head?_eq_some_iff.mp hhead with ⟨cs, hcs⟩
  rw [← readName_append hp s, hcs]
  exact readEscape_name hc (cs ++ s)

theorem readEscape_letter {n : ℕ} {letter : Char} (h : (n, letter) ∈ letters) (s : Str) :
    readEscape (letter :: s) = some (Char.ofNat n, s) := by
  have hfirst : ∀ p ∈ letters, isDec p.2 = false ∧ ¬ (p.2 = '\\' ∨ p.2 = '"' ∨ p.2 = '\'') ∧
      (letters.find? fun q => q.2 = p.2) = some p := by
    decide
  rcases hfirst _ h with ⟨hdec, hquote, hfind⟩
  rw [readEscape, if_neg (by simp [hdec]), if_neg hquote, hfind]

theorem readLitString_step {s rest : Str} {c : Option Char} (hs : s.head? ≠ some '"')
    (h : readLitChar s = some (c, rest)) :
    readLitString s = (readLitString rest).map fun p => (c.toList ++ p.1, p.2) := by
  rw [readLitString, if_neg hs]
  split
  · rename_i hnone
    rw [h] at hnone
    cases hnone
  · rename_i c' rest' hsome
    rw [h] at hsome
    cases hsome
    rfl

theorem readLitString_escape {s rest : Str} {c : Char} (hs : s.head? ≠ some '&')
    (h : readEscape s = some (c, rest)) :
    readLitString ('\\' :: s) = (readLitString rest).map fun p => (c :: p.1, p.2) := by
  have hstep : readLitChar ('\\' :: s) = some (some c, rest) := by
    rw [readLitChar, if_pos rfl, if_neg hs, h]
    rfl
  exact readLitString_step (by simp) hstep

/-- The empty escape changes nothing. -/
theorem readLitString_protectEsc (p : Char → Bool) (s : Str) :
    readLitString (protectEsc p s) = readLitString s := by
  cases s with
  | nil =>
      rfl
  | cons c s =>
      rw [protectEsc]
      split_ifs
      · have hstep : readLitChar ('\\' :: '&' :: c :: s) = some (none, c :: s) := rfl
        rw [readLitString_step (by simp) hstep]
        simp
      · rfl

theorem control_mem_names : ∀ n < 0x20, n ≠ 14 →
    (asciiTab.getD n [], Char.ofNat n) ∈ names := by
  decide

theorem showNat_head (n : ℕ) (s : Str) : (showNat n ++ s).head? ≠ some '&' := by
  rcases exists_showNat_cons n with ⟨d, hd, cs, hcs⟩
  have hne : ∀ d < 10, Nat.digitChar d ≠ '&' := by decide
  simp [hcs, hne d hd]

theorem names_head {p : Str × Char} (hp : p ∈ names) (s : Str) :
    (p.1 ++ s).head? ≠ some '&' := by
  have hne : ∀ p ∈ names, p.1 ≠ [] ∧ p.1.head? ≠ some '&' := by decide
  rcases hne p hp with ⟨hnil, hhead⟩
  rwa [List.head?_append_of_ne_nil _ hnil]

/-- Behind its escape, a control character is read back up to an empty escape. -/
theorem readLitString_showControl {c : Char} (hc : c.toNat < 0x20) (s : Str) :
    readLitString ('\\' :: showControl c.toNat s) =
      (readLitString s).map fun p => (c :: p.1, p.2) := by
  have hof : Char.ofNat c.toNat = c := Char.ofNat_toNat c
  unfold showControl
  cases hletter : letters.lookup c.toNat with
  | some letter =>
      have hmem : (c.toNat, letter) ∈ letters := by
        rcases List.lookup_eq_some_iff.mp hletter with ⟨before, after, heq, -⟩
        rw [heq]
        simp
      have hne : ∀ p ∈ letters, p.2 ≠ '&' := by decide
      have hescape := readEscape_letter hmem s
      rw [hof] at hescape
      exact readLitString_escape (by simpa using hne _ hmem) hescape
  | none =>
      by_cases hSO : c.toNat = 14
      · -- The one name that needs protection.
        have hchar : c = '\x0e' := by rw [← hof, hSO]
        have hescape : readEscape ("SO".toList ++ protectEsc (· = 'H') s) =
            some (c, protectEsc (· = 'H') s) := by
          have hhead : (protectEsc (· = 'H') s).head? ≠ some 'H' := by
            intro h
            have := protectEsc_head (p := (· = 'H')) (by decide) h
            simp at this
          rw [hchar, ← readName_SO hhead]
          exact readEscape_name (by decide) _
        simp only [if_pos hSO]
        rw [readLitString_escape (by simp) hescape, readLitString_protectEsc]
      · have hmem := control_mem_names c.toNat hc hSO
        rw [hof] at hmem
        simp only [if_neg hSO]
        exact readLitString_escape (names_head hmem s) (readEscape_names hmem s)

theorem readLitString_showLitChar {c : Char} (hc : c ≠ '"') (s : Str) :
    readLitString (showLitChar c s) = (readLitString s).map fun p => (c :: p.1, p.2) := by
  unfold showLitChar
  split_ifs with hbig hdel hback hprint
  · -- What follows the number does not continue it, and the empty escape is read away.
    have hescape : readEscape (showNat c.toNat ++ protectEsc isDec s) =
        some (c, protectEsc isDec s) := by
      have h := readEscape_number (n := c.toNat) c.valid
        fun d hd => protectEsc_head (p := isDec) (s := s) (by decide) hd
      rwa [Char.ofNat_toNat] at h
    rw [readLitString_escape (showNat_head _ _) hescape, readLitString_protectEsc]
  · have hchar : c = '\x7f' := by
      rw [← Char.ofNat_toNat c, hdel]
    have hmem : ("DEL".toList, c) ∈ names := by
      rw [hchar]
      decide
    exact readLitString_escape (names_head hmem s) (readEscape_names hmem s)
  · rw [hback]
    exact readLitString_escape (by simp) rfl
  · -- Any other character stands for itself.
    have hstep : readLitChar (c :: s) = some (some c, s) := if_neg hback
    rw [readLitString_step (by simpa using hc) hstep]
    simp
  · exact readLitString_showControl (by omega) s

/-! ## Strings are read back -/

/-- What follows a string literal is left. -/
theorem readLitString_showLitString (cs s : Str) :
    readLitString (showLitString cs ('"' :: s)) = some (cs, s) := by
  induction cs with
  | nil =>
      rw [showLitString, List.foldr_nil, readLitString, if_pos (by simp), List.tail_cons]
  | cons c cs ih =>
      rw [showLitString, List.foldr_cons, ← showLitString]
      by_cases hc : c = '"'
      -- A quote is escaped here, and any other character by `showLitChar`.
      · rw [if_pos hc, readLitString_escape (c := c) (by simp) (by rw [hc]; rfl), ih]
        rfl
      · rw [if_neg hc, readLitString_showLitChar hc, ih]
        rfl

theorem readString_showString (cs s : Str) : readString (showString cs s) = some (cs, s) :=
  readLitString_showLitString cs s

theorem readItems_showString (x : Str) (xs : List Str) (s : Str) :
    readItems (showString x (showItems xs s)) = some (x :: xs, s) := by
  induction xs generalizing x with
  | nil =>
      have hitem := readString_showString x (']' :: s)
      rw [readItems, showItems]
      split
      · rename_i h
        rw [hitem] at h
        cases h
      · rename_i h
        rw [hitem] at h
        cases h
        rfl
      · rename_i hother
        exact absurd hitem (hother x s)
  | cons y ys ih =>
      have hitem := readString_showString x (',' :: showString y (showItems ys s))
      rw [readItems, showItems]
      split
      · rename_i h
        rw [hitem] at h
        cases h
        rw [ih y]
        rfl
      · rename_i h
        rw [hitem] at h
        cases h
      · rename_i hother _
        exact absurd hitem (hother x _)

/-- Lists of strings are read back. -/
theorem readStrings_showStrings (xs : List Str) (s : Str) :
    readStrings (showStrings xs s) = some (xs, s) := by
  cases xs with
  | nil =>
      rfl
  | cons x xs =>
      exact readItems_showString x xs s

/-! ## What is written ends with what follows -/

theorem suffix_protectEsc (p : Char → Bool) (s : Str) : s <:+ protectEsc p s := by
  cases s with
  | nil =>
      exact List.suffix_refl _
  | cons c s =>
      rw [protectEsc]
      split_ifs
      · exact ⟨['\\', '&'], rfl⟩
      · exact List.suffix_refl _

theorem suffix_showControl (n : ℕ) (s : Str) : s <:+ showControl n s := by
  unfold showControl
  split
  · exact List.suffix_cons _ s
  · split_ifs
    · exact (suffix_protectEsc _ s).trans (List.suffix_append _ _)
    · exact List.suffix_append _ s

theorem suffix_showLitChar (c : Char) (s : Str) : s <:+ showLitChar c s := by
  unfold showLitChar
  split_ifs
  · exact ((suffix_protectEsc _ s).trans (List.suffix_append _ _)).trans (List.suffix_cons _ _)
  · exact (List.suffix_append _ s).trans (List.suffix_cons _ _)
  · exact (List.suffix_cons _ s).trans (List.suffix_cons _ _)
  · exact List.suffix_cons _ s
  · exact (suffix_showControl _ s).trans (List.suffix_cons _ _)

theorem suffix_showLitString (cs s : Str) : s <:+ showLitString cs s := by
  induction cs with
  | nil =>
      exact List.suffix_refl _
  | cons c cs ih =>
      rw [showLitString, List.foldr_cons, ← showLitString]
      split_ifs
      · exact ih.trans ((List.suffix_cons _ _).trans (List.suffix_cons _ _))
      · exact ih.trans (suffix_showLitChar c _)

theorem suffix_showString (cs s : Str) : s <:+ showString cs s :=
  (List.suffix_cons _ s).trans ((suffix_showLitString cs _).trans (List.suffix_cons _ _))

theorem suffix_showItems (xs : List Str) (s : Str) : ']' :: s <:+ showItems xs s := by
  induction xs with
  | nil =>
      exact List.suffix_refl _
  | cons x xs ih =>
      exact ih.trans ((suffix_showString x _).trans (List.suffix_cons _ _))

theorem suffix_showStrings (xs : List Str) (s : Str) : ']' :: s <:+ showStrings xs s := by
  cases xs with
  | nil =>
      exact List.suffix_cons _ _
  | cons x xs =>
      exact (suffix_showItems xs s).trans ((suffix_showString x _).trans (List.suffix_cons _ _))

end Read
end Base
end Etude
