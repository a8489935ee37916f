import Mathlib
import ReductStore.Shared.Pieces

set_option autoImplicit false

namespace ReductStore.Text

def splitOnce (separator : Char) : List Char → Option (List Char × List Char)
  | [] => none
  | char :: rest =>
    if char = separator then some ([], rest)
    else (splitOnce separator rest).map fun (front, back) => (char :: front, back)

def digitValue (char : Char) : Option Nat :=
  if '0' ≤ char ∧ char ≤ '9' then some (char.toNat - '0'.toNat) else none

def parseDigits : Nat → List Char → Option Nat
  | number, [] => some number
  | number, char :: rest => do
    let digit ← digitValue char
    parseDigits (10 * number + digit) rest

def parseUnsigned (limit : Nat) (text : List Char) : Option Nat := do
  let digits := match text with
    | '+' :: rest => rest
    | _ => text
  if digits = [] then none
  else
    let number ← parseDigits 0 digits
    if number < limit then some number else none

def isWhitespace (char : Char) : Bool :=
  let code := char.toNat
  (9 ≤ code && code ≤ 13) || code = 0x20 || code = 0x85 || code = 0xA0 || code = 0x1680 ||
    (0x2000 ≤ code && code ≤ 0x200A) || code = 0x2028 || code = 0x2029 || code = 0x202F || code = 0x205F || code = 0x3000

def splitWhitespace (text : List Char) : List (List Char) := (text.splitOnP isWhitespace).filter (! ·.isEmpty)

def parseSigned : List Char → Option Int
  | '-' :: digits => if digits = [] then none else (parseDigits 0 digits).map fun (number : Nat) => -(number : Int)
  | '+' :: digits => if digits = [] then none else (parseDigits 0 digits).map fun (number : Nat) => (number : Int)
  | digits => if digits = [] then none else (parseDigits 0 digits).map fun (number : Nat) => (number : Int)

def intText (number : Int) : List Char :=
  if number < 0 then '-' :: Nat.toDigits 10 number.natAbs else Nat.toDigits 10 number.natAbs

def trimStart (text : List Char) : List Char := text.dropWhile isWhitespace

def trimEnd (text : List Char) : List Char := text.rdropWhile isWhitespace

def trim (text : List Char) : List Char := trimEnd (trimStart text)

section Split

variable {separator : Char} {text front back : List Char}

theorem splitOnce_append (clear : separator ∉ front) :
    splitOnce separator (front ++ separator :: back) = some (front, back) := by
  induction front with
  | nil => simp [splitOnce]
  | cons char front ih =>
    rw [List.mem_cons, not_or] at clear
    simp [splitOnce, Ne.symm clear.1, ih clear.2]

theorem splitOnce_none (clear : separator ∉ text) : splitOnce separator text = none := by
  induction text with
  | nil => rfl
  | cons char text ih =>
    rw [List.mem_cons, not_or] at clear
    simp [splitOnce, Ne.symm clear.1, ih clear.2]

theorem splitOnce_some (split : splitOnce separator text = some (front, back)) :
    text = front ++ separator :: back ∧ separator ∉ front := by
  induction text generalizing front with
  | nil => simp [splitOnce] at split
  | cons char text ih =>
    unfold splitOnce at split
    by_cases same : char = separator
    · rw [if_pos same, Option.some.injEq, Prod.mk.injEq] at split
      obtain ⟨rfl, rfl⟩ := split
      exact ⟨by simp [same], List.not_mem_nil⟩
    · rw [if_neg same, Option.map_eq_some_iff] at split
      obtain ⟨⟨before, behind⟩, found, parts⟩ := split
      obtain ⟨rfl, rfl⟩ := Prod.mk.inj parts
      obtain ⟨rfl, clear⟩ := ih found
      exact ⟨rfl, by simp [Ne.symm same, clear]⟩

theorem splitOnce_length (split : splitOnce separator text = some (front, back)) :
    text.length = front.length + back.length + 1 := by
  simpa [Nat.add_assoc] using congrArg List.length (splitOnce_some split).1

theorem splitOnce_eq_none (missing : splitOnce separator text = none) : separator ∉ text := by
  intro member
  obtain ⟨front, back, rfl, clear⟩ := List.eq_append_cons_of_mem member
  simp [splitOnce_append clear] at missing

end Split

section Trim

variable {text : List Char}

theorem trim_infix (text : List Char) : trim text <:+: text :=
  ((List.rdropWhile_prefix _ _).isInfix).trans (List.dropWhile_suffix _).isInfix

theorem length_trim_le (text : List Char) : (trim text).length ≤ text.length := ( trim_infix text).length_le

theorem dropWhile_eq_self {drops : Char → Bool} (keeps : ∀ char ∈ text.head?, drops char = false) :
    text.dropWhile drops = text := by
  cases text with
  | nil => rfl
  | cons char text => simp [keeps char rfl]

theorem rdropWhile_eq_self {drops : Char → Bool} (keeps : ∀ char ∈ text.getLast?, drops char = false) :
    text.rdropWhile drops = text := by
  rw [List.rdropWhile_eq_self_iff]
  intro filled
  simp [keeps _ (List.getLast?_eq_some_getLast filled)]

theorem trim_eq_self (first : ∀ char ∈ text.head?, isWhitespace char = false)
    (last : ∀ char ∈ text.getLast?, isWhitespace char = false) : trim text = text := by
  rw [trim, trimStart, dropWhile_eq_self first, trimEnd, rdropWhile_eq_self last]

theorem head_dropWhile (text : List Char) {drops : Char → Bool} (char : Char) (member : char ∈ (text.dropWhile drops).head?) :
    drops char = false := by
  have kept := List.head?_dropWhile_not drops text
  rwa [Option.mem_def.mp member] at kept

theorem head_trim (char : Char) (member : char ∈ (trim text).head?) : isWhitespace char = false := by
  obtain ⟨rest, whole⟩ : trim text <+: trimStart text := List.rdropWhile_prefix _ _
  refine head_dropWhile text char ?_
  rw [show text.dropWhile isWhitespace = trimStart text from rfl, ← whole, List.head?_append, Option.mem_def.mp member]
  rfl

theorem last_trim (char : Char) (member : char ∈ (trim text).getLast?) : isWhitespace char = false := by
  refine head_dropWhile (trimStart text).reverse char ?_
  simpa [trim, trimEnd, List.rdropWhile] using member

theorem trim_trim (text : List Char) : trim (trim text) = trim text := trim_eq_self head_trim last_trim

end Trim

section Number

theorem parseDigits_append (number : Nat) (first second : List Char) :
    parseDigits number (first ++ second) = (parseDigits number first).bind fun read => parseDigits read second := by
  induction first generalizing number with
  | nil => rfl
  | cons char first ih =>
    simp only [List.cons_append, parseDigits]
    cases digitValue char with
    | none => rfl
    | some digit => exact ih _

theorem parseDigits_toDigits (number : Nat) : parseDigits 0 (Nat.toDigits 10 number) = some number := by
  induction number using Nat.strong_induction_on with
  | h number ih =>
    have digit : ∀ small < 10, digitValue (Nat.digitChar small) = some small := by decide
    rw [Nat.toDigits_eq_if (by decide)]
    split
    next small => simp [parseDigits, digit number small]
    next large =>
      rw [parseDigits_append, ih (number / 10) (by omega)]
      simp only [Option.bind_some, parseDigits, digit (number % 10) (Nat.mod_lt _ (by decide))]
      simp [Nat.div_add_mod]

theorem isDigit_of_toDigits (number : Nat) {char : Char} (member : char ∈ Nat.toDigits 10 number) :
    char.isDigit = true := Nat.isDigit_of_mem_toDigits (by decide) (by decide) member

theorem parseUnsigned_toDigits {limit number : Nat} (small : number < limit) :
    parseUnsigned limit (Nat.toDigits 10 number) = some number := by
  have filled : Nat.toDigits 10 number ≠ [] := Nat.toDigits_ne_nil
  have digits : (match Nat.toDigits 10 number with
      | '+' :: rest => rest
      | _ => Nat.toDigits 10 number) = Nat.toDigits 10 number := by
    split
    next rest first =>
      have plus : ('+' : Char).isDigit = true := isDigit_of_toDigits number (by rw [first]; simp)
      exact absurd plus (by decide)
    next => rfl
  simp only [parseUnsigned, digits, if_neg filled, parseDigits_toDigits]
  simp [small]

theorem parseSigned_digits {digits : List Char} (filled : digits ≠ []) (all : ∀ char ∈ digits, char.isDigit = true) :
    parseSigned digits = (parseDigits 0 digits).map fun (number : Nat) => (number : Int) := by
  unfold parseSigned
  split
  · exact absurd (all '-' List.mem_cons_self) (by decide)
  · exact absurd (all '+' List.mem_cons_self) (by decide)
  · rw [if_neg filled]

theorem parseSigned_intText (number : Int) : parseSigned (intText number) = some number := by
  have filled : Nat.toDigits 10 number.natAbs ≠ [] := Nat.toDigits_ne_nil
  unfold intText
  split_ifs with negative
  · simp only [parseSigned, if_neg filled, parseDigits_toDigits, Option.map_some, Option.some.injEq]
    omega
  · rw [parseSigned_digits filled fun char member => isDigit_of_toDigits _ member, parseDigits_toDigits, Option.map_some,
      Option.some.injEq]
    omega

end Number

section Words

variable {text word : List Char}

theorem mem_splitWhitespace (member : word ∈ splitWhitespace text) :
    word ≠ [] ∧ ∀ char ∈ word, isWhitespace char = false := by
  rw [splitWhitespace, List.mem_filter] at member
  exact ⟨by simpa using member.2, Pieces.clear_of_mem_splitOnP member.1⟩

theorem splitWhitespace_intercalate {words : List (List Char)} (filled : ∀ word ∈ words, word ≠ [])
    (clear : ∀ word ∈ words, ∀ char ∈ word, isWhitespace char = false) :
    splitWhitespace ([' '].intercalate words) = words := by
  induction words with
  | nil => rfl
  | cons word words ih =>
    rw [List.forall_mem_cons] at filled clear
    cases words with
    | nil =>
      rw [List.intercalate_singleton, splitWhitespace, List.splitOnP_eq_singleton clear.1]
      simp [filled.1]
    | cons next later =>
      have rest := ih filled.2 clear.2
      rw [splitWhitespace] at rest ⊢
      rw [List.intercalate_cons_cons, List.append_assoc, List.singleton_append, List.splitOnP_append_cons _ _ (by decide),
        List.splitOnP_eq_singleton clear.1, List.singleton_append, List.filter_cons_of_pos (by simpa using filled.1), rest]

theorem trim_eq_nil_iff : trim text = [] ↔ ∀ char ∈ text, isWhitespace char = true := by
  rw [trim, trimEnd, List.rdropWhile_eq_nil_iff, trimStart]
  constructor
  · intro rest
    rw [← List.dropWhile_eq_nil_iff]
    cases dropped : text.dropWhile isWhitespace with
    | nil => rfl
    | cons first later =>
      -- what is left begins with a character that is no blank
      have visible := head_dropWhile text first (by rw [dropped]; rfl)
      rw [rest first (by rw [dropped]; exact List.mem_cons_self)] at visible
      cases visible
  · intro blank char member
    exact blank char ((List.dropWhile_suffix _).subset member)

theorem splitWhitespace_eq_nil_iff : splitWhitespace text = [] ↔ ∀ char ∈ text, isWhitespace char = true := by
  rw [splitWhitespace, List.filter_eq_nil_iff]
  induction text with
  | nil => simp
  | cons char text ih =>
    rw [List.splitOnP_cons_eq_if_modifyHead]
    by_cases blank : isWhitespace char = true
    · rw [if_pos blank, List.forall_mem_cons, ih, List.forall_mem_cons]
      simp [blank]
    · rw [if_neg blank]
      refine iff_of_false (fun empty => ?_) fun all => blank (all char List.mem_cons_self)
      cases split : text.splitOnP isWhitespace with
      | nil => exact List.splitOnP_ne_nil _ _ split
      | cons first later =>
        rw [split, List.modifyHead_cons] at empty
        exact absurd rfl (empty _ List.mem_cons_self)

theorem trim_eq_nil_iff_splitWhitespace : trim text = [] ↔ splitWhitespace text = [] := by
  rw [trim_eq_nil_iff, splitWhitespace_eq_nil_iff]

theorem trim_word (clear : ∀ char ∈ word, isWhitespace char = false) : trim word = word :=
  trim_eq_self (fun char first => clear char (List.mem_of_mem_head? first))
    fun char last => clear char (List.mem_of_getLast? last)

end Words

end ReductStore.Text
