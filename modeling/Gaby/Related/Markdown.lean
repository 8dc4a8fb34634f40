import Mathlib.Data.List.Basic

/-!
# The escaped titles of the related-issues comment

`Poster.Run` writes the title of each related document into the link text of its comment
through `markdownEscape`, the `strings.Replacer` that puts a backslash before each of the
characters `_`, `*`, backquote, `[`, `]`, `<`, `>` and `&` (`markdownSpecial`). CommonMark reads a
backslash before ASCII punctuation (`asciiPunct`) as that character, and any other backslash as
itself (`unescape`). The replacer works on bytes; its characters are ASCII, which UTF-8 never
uses inside a multibyte character, so the model works on characters.

* `unescape_escape_special`, `unescape_escape_plain`, `unescape_escape_backslash_*`: what a
  reader sees of an escaped text, one equation per case of its first characters.
* `length_unescape_escape`: the reader never sees more characters than the title has.
* `unescape_markdownEscape`: the reader sees the title exactly when no backslash of it stands
  before ASCII punctuation that `markdownEscape` leaves alone (`losesBackslash`). The escaper
  does not escape the backslash itself, so a title such as `C:\\dir` or `a\#b` loses a
  backslash in the posted comment.
-/

namespace Gaby.Related

/-- The characters `markdownEscaper` replaces, each by a backslash and itself. -/
def markdownSpecial (c : Char) : Bool :=
  c = '_' || c = '*' || c = '\x60' || c = '[' || c = ']' || c = '<' || c = '>' || c = '&'

/-- `markdownEscape(s)`, that is `markdownEscaper.Replace(s)`. -/
def markdownEscape (s : List Char) : List Char :=
  s.flatMap fun c => if markdownSpecial c then ['\\', c] else [c]

/-- ASCII punctuation, the characters CommonMark lets a backslash escape. -/
def asciiPunct (c : Char) : Bool :=
  (33 ≤ c.toNat && c.toNat ≤ 47) || (58 ≤ c.toNat && c.toNat ≤ 64) ||
    (91 ≤ c.toNat && c.toNat ≤ 96) || (123 ≤ c.toNat && c.toNat ≤ 126)

/-- What CommonMark shows of `s` as far as backslash escapes go: a backslash before ASCII
punctuation stands for that character, any other backslash for itself. -/
def unescape : List Char → List Char
  | '\\' :: c :: s => if asciiPunct c then c :: unescape s else '\\' :: unescape (c :: s)
  | c :: s => c :: unescape s
  | [] => []

/-- Whether some backslash of `s` stands before ASCII punctuation that `markdownEscape` leaves
alone. -/
def losesBackslash : List Char → Bool
  | '\\' :: d :: t => (asciiPunct d && !markdownSpecial d) || losesBackslash (d :: t)
  | _ :: t => losesBackslash t
  | [] => false

theorem markdownEscape_cons (c : Char) (t : List Char) :
    markdownEscape (c :: t) = (if markdownSpecial c then ['\\', c] else [c]) ++ markdownEscape t :=
  List.flatMap_cons _ _ _

theorem asciiPunct_of_special {c : Char} (h : markdownSpecial c) : asciiPunct c ∧ c ≠ '\\' := by
  simp only [markdownSpecial, Bool.or_eq_true, decide_eq_true_eq] at h
  rcases h with ((((((rfl | rfl) | rfl) | rfl) | rfl) | rfl) | rfl) | rfl <;> decide

theorem unescape_cons_of_ne {c : Char} (h : c ≠ '\\') (s : List Char) :
    unescape (c :: s) = c :: unescape s :=
  unescape.eq_2 c s fun _ _ hc _ => h hc

theorem unescape_backslash_cons (c : Char) (s : List Char) :
    unescape ('\\' :: c :: s) =
      if asciiPunct c then c :: unescape s else '\\' :: unescape (c :: s) :=
  unescape.eq_1 c s

theorem losesBackslash_cons_of_ne {c : Char} (h : c ≠ '\\') (t : List Char) :
    losesBackslash (c :: t) = losesBackslash t :=
  losesBackslash.eq_2 c t fun _ _ hc _ => h hc

section RoundTrip

variable {d : Char} (t : List Char)

theorem unescape_escape_special (hd : markdownSpecial d) :
    unescape (markdownEscape (d :: t)) = d :: unescape (markdownEscape t) := by
  rw [markdownEscape_cons, if_pos hd, List.cons_append, List.cons_append, List.nil_append,
    unescape_backslash_cons, if_pos (asciiPunct_of_special hd).1]

theorem unescape_escape_plain (hd : ¬markdownSpecial d) (hb : d ≠ '\\') :
    unescape (markdownEscape (d :: t)) = d :: unescape (markdownEscape t) := by
  rw [markdownEscape_cons, if_neg hd, List.singleton_append, unescape_cons_of_ne hb]

theorem unescape_escape_backslash_special (hd : markdownSpecial d) :
    unescape (markdownEscape ('\\' :: d :: t)) = '\\' :: d :: unescape (markdownEscape t) := by
  rw [markdownEscape_cons, if_neg (by decide), List.singleton_append, markdownEscape_cons,
    if_pos hd, List.cons_append, List.cons_append, List.nil_append, unescape_backslash_cons,
    if_pos (by decide), unescape_cons_of_ne (asciiPunct_of_special hd).2]

theorem unescape_escape_backslash_punct (hd : ¬markdownSpecial d) (hp : asciiPunct d) :
    unescape (markdownEscape ('\\' :: d :: t)) = d :: unescape (markdownEscape t) := by
  rw [markdownEscape_cons, if_neg (by decide), List.singleton_append, markdownEscape_cons,
    if_neg hd, List.singleton_append, unescape_backslash_cons, if_pos hp]

theorem unescape_escape_backslash_other (hd : ¬markdownSpecial d) (hp : ¬asciiPunct d) :
    unescape (markdownEscape ('\\' :: d :: t)) = '\\' :: d :: unescape (markdownEscape t) := by
  have hb : d ≠ '\\' := by rintro rfl; exact hp rfl
  rw [markdownEscape_cons, if_neg (by decide), List.singleton_append, markdownEscape_cons,
    if_neg hd, List.singleton_append, unescape_backslash_cons, if_neg hp, unescape_cons_of_ne hb]

end RoundTrip

theorem length_unescape_escape : ∀ s : List Char,
    (unescape (markdownEscape s)).length ≤ s.length
  | [] => le_rfl
  | c :: t => by
    by_cases hb : c = '\\'
    · subst hb
      cases t with
      | nil => exact le_rfl
      | cons d t =>
        have ih := length_unescape_escape t
        by_cases hd : markdownSpecial d
        · rw [unescape_escape_backslash_special t hd]; simp only [List.length_cons]; omega
        by_cases hp : asciiPunct d
        · rw [unescape_escape_backslash_punct t hd hp]; simp only [List.length_cons]; omega
        · rw [unescape_escape_backslash_other t hd hp]; simp only [List.length_cons]; omega
    · have ih := length_unescape_escape t
      by_cases hd : markdownSpecial c
      · rw [unescape_escape_special t hd]; simp only [List.length_cons]; omega
      · rw [unescape_escape_plain t hd hb]; simp only [List.length_cons]; omega

/-- **What the related-issues comment shows of a title**: CommonMark's reading of
`markdownEscape(title)` is the title exactly when no backslash of the title stands before ASCII
punctuation other than the eight characters the escaper replaces; otherwise the backslash is
lost. -/
theorem unescape_markdownEscape : ∀ s : List Char,
    unescape (markdownEscape s) = s ↔ losesBackslash s = false
  | [] => iff_of_true rfl rfl
  | c :: t => by
    by_cases hb : c = '\\'
    · subst hb
      cases t with
      | nil => exact iff_of_true rfl rfl
      | cons d t =>
        rw [losesBackslash.eq_1]
        by_cases hd : markdownSpecial d
        · rw [unescape_escape_backslash_special t hd, hd, Bool.not_true, Bool.and_false,
            Bool.false_or, losesBackslash_cons_of_ne (asciiPunct_of_special hd).2,
            List.cons.injEq, List.cons.injEq]
          exact (and_iff_right rfl).trans ((and_iff_right rfl).trans (unescape_markdownEscape t))
        by_cases hp : asciiPunct d
        · rw [unescape_escape_backslash_punct t hd hp, hp]
          refine iff_of_false (fun h => ?_) (by simp [hd])
          have := congrArg List.length h
          have := length_unescape_escape t
          simp only [List.length_cons] at *
          omega
        · have hne : d ≠ '\\' := by rintro rfl; exact hp rfl
          rw [unescape_escape_backslash_other t hd hp, Bool.eq_false_iff.2 hp, Bool.false_and,
            Bool.false_or, losesBackslash_cons_of_ne hne, List.cons.injEq, List.cons.injEq]
          exact (and_iff_right rfl).trans ((and_iff_right rfl).trans (unescape_markdownEscape t))
    · rw [losesBackslash_cons_of_ne hb]
      by_cases hd : markdownSpecial c
      · rw [unescape_escape_special t hd, List.cons.injEq]
        exact (and_iff_right rfl).trans (unescape_markdownEscape t)
      · rw [unescape_escape_plain t hd hb, List.cons.injEq]
        exact (and_iff_right rfl).trans (unescape_markdownEscape t)

example : unescape (markdownEscape "a_b*c".toList) = "a_b*c".toList := by decide
example : unescape (markdownEscape "C:\\\\dir".toList) = "C:\\dir".toList := by decide

end Gaby.Related
