import Mathlib.Data.List.DropRight
import Mathlib.Order.Lattice
import Mathlib.Algebra.Group.Int

/-!
# The `Link` header parser

`findNext` (`internal/github/sync.go`) reads the `Link` header of a page and returns the URL of
its `rel="next"` entry, which `Client.pages` fetches next. Strings are their runes (`List Char`):
the separators are ASCII, so Go's byte indexes and rune indexes find the same cuts, and
`strings.TrimSpace` trims the runes `unicode.IsSpace` accepts (`isSpace`).

`findNext` is its two loops as written. The parameter loop is `forLoop`, Go's `for cond { … }`,
over `paramPass`, one pass of its body; the outer loop is `findNext`'s own recursion. Both are
well-founded recursion on the length of `link`, accepted because every pass shortens `link`
(`paramPass_length`, and the `decreasing_by` of `findNext`), so `findNext` stops on every string.

* `trimSpace_spaces_append`, `trimSpace_leading_spaces`, `trimSpace_trimSpace`: what trimming
  does to the pieces of a header.
* `params_flatMap`: the parameter loop over an entry's parameters, up to the next `,`.
* `findNext_render_append`: the outer loop over one entry followed by the rest of the header.
* `findNext_renderLink`: on every header the grammar builds (`LinkEntry`, `renderLink`),
  `findNext` returns the URL of the first entry with a parameter `rel="next"` (`firstNext`).
-/

namespace Gaby.Github

/-! ## Go's string functions -/

/-- `unicode.IsSpace`. -/
def isSpace (c : Char) : Bool :=
  let n := c.toNat
  (9 ≤ n && n ≤ 13) || n = 0x20 || n = 0x85 || n = 0xA0 || n = 0x1680 ||
    (0x2000 ≤ n && n ≤ 0x200A) || n = 0x2028 || n = 0x2029 || n = 0x202F || n = 0x205F ||
    n = 0x3000

/-- `strings.TrimSpace`: the trailing and the leading spaces dropped. -/
def trimSpace (s : List Char) : List Char := (s.rdropWhile isSpace).dropWhile isSpace

/-- `strings.Index(s, string(c))`: the first position of `c` in `s`, or `-1`. -/
def index (s : List Char) (c : Char) : Int :=
  match s.indexOf? c with
  | some i => i
  | none => -1

theorem rdropWhile_append_cons {p : Char → Bool} {c : Char} (x y : List Char) (hc : ¬p c) :
    (x ++ c :: y).rdropWhile p = x ++ c :: y.rdropWhile p := by
  induction y using List.reverseRecOn with
  | nil => simpa using List.rdropWhile_concat_neg p (x ++ []) c hc
  | append_singleton y a ih =>
    rw [← List.cons_append, ← List.append_assoc, List.rdropWhile_concat, List.rdropWhile_concat, ih]
    split <;> simp

theorem trimSpace_sublist (s : List Char) : List.Sublist (trimSpace s) s :=
  (List.dropWhile_sublist _).trans ( List.rdropWhile_prefix _ _).sublist

theorem trimSpace_length_le (s : List Char) : (trimSpace s).length ≤ s.length :=
  (trimSpace_sublist s).length_le

@[simp] theorem trimSpace_nil : trimSpace [] = [] := rfl

theorem trimSpace_rdropWhile (s : List Char) : trimSpace (s.rdropWhile isSpace) = trimSpace s := by
  rw [trimSpace, List.rdropWhile_idempotent, trimSpace]

theorem trimSpace_of_spaces {s : List Char} (hs : ∀ c ∈ s, isSpace c) : trimSpace s = [] := by
  rw [trimSpace, List.rdropWhile_eq_nil_iff.mpr hs, List.dropWhile_nil]

theorem trimSpace_spaces_append {sp r : List Char} {c : Char} (hsp : ∀ a ∈ sp, isSpace a)
    (hc : ¬isSpace c) : trimSpace (sp ++ c :: r) = c :: r.rdropWhile isSpace := by
  rw [trimSpace, rdropWhile_append_cons _ _ hc, List.dropWhile_append_of_pos hsp,
    List.dropWhile_cons_of_neg hc]

theorem spaces_split (s : List Char) :
    (∀ a ∈ s, isSpace a) ∨ ∃ sp c r, s = sp ++ c :: r ∧ (∀ a ∈ sp, isSpace a) ∧ ¬isSpace c := by
  rw [← List.takeWhile_append_dropWhile isSpace s]
  have hsp : ∀ a ∈ s.takeWhile isSpace, isSpace a := fun _ => List.mem_takeWhile_imp
  cases hd : s.dropWhile isSpace with
  | nil => exact .inl (by simpa using hsp)
  | cons c r =>
    have hc := List.head_dropWhile_not isSpace s (by simp [hd])
    simp only [hd, List.head_cons] at hc
    exact .inr ⟨_, c, r, rfl, hsp, by simp [hc]⟩

theorem trimSpace_leading_spaces {sp : List Char} (hsp : ∀ a ∈ sp, isSpace a) (s : List Char) :
    trimSpace (sp ++ s) = trimSpace s := by
  rcases spaces_split s with hs | ⟨sp', c, r, rfl, hsp', hc⟩
  · rw [trimSpace_of_spaces hs, trimSpace_of_spaces (by simpa [or_imp, forall_and] using ⟨hsp, hs⟩)]
  · rw [← List.append_assoc, trimSpace_spaces_append (by simpa [or_imp, forall_and] using
      ⟨hsp, hsp'⟩) hc, trimSpace_spaces_append hsp' hc]

theorem trimSpace_dropWhile (s : List Char) : trimSpace (s.dropWhile isSpace) = trimSpace s := by
  conv_rhs => rw [← List.takeWhile_append_dropWhile isSpace s]
  exact (trimSpace_leading_spaces (fun _ => List.mem_takeWhile_imp) _).symm

theorem trimSpace_cons {c : Char} (hc : ¬isSpace c) (r : List Char) :
    trimSpace (c :: r) = c :: r.rdropWhile isSpace :=
  trimSpace_spaces_append (by simp : ∀ a ∈ ([] : List Char), isSpace a) hc

theorem trimSpace_trimSpace (s : List Char) : trimSpace (trimSpace s) = trimSpace s := by
  rcases spaces_split s with hs | ⟨sp, c, r, rfl, hsp, hc⟩
  · rw [trimSpace_of_spaces hs, trimSpace_nil]
  · rw [trimSpace_spaces_append hsp hc, trimSpace_cons hc, List.rdropWhile_idempotent]

theorem index_ge (s : List Char) (c : Char) : -1 ≤ index s c := by
  unfold index; split <;> omega

@[simp] theorem index_nil (c : Char) : index [] c = -1 := rfl

theorem index_cons_self (c : Char) (s : List Char) : index (c :: s) c = 0 := by
  simp [index, List.indexOf?]

theorem index_cons_ne {c d : Char} (h : d ≠ c) (s : List Char) :
    index (d :: s) c = if index s c < 0 then -1 else index s c + 1 := by
  simp only [index, List.indexOf?, List.findIdx?_cons, beq_eq_false_iff_ne.mpr h,
    Bool.false_eq_true, if_false, List.findIdx?_succ]
  rcases List.findIdx? (· == c) s with _ | v
  · simp
  · have : ¬((v : Int) < 0) := by omega
    simp [this]

theorem index_append {x : List Char} {c : Char} (hx : c ∉ x) (y : List Char) :
    index (x ++ y) c = if index y c < 0 then -1 else x.length + index y c := by
  have := index_ge y c
  induction x with
  | nil => simp only [List.nil_append, List.length_nil, Nat.cast_zero, zero_add]; split <;> omega
  | cons d x ih =>
    have hd : d ≠ c := by rintro rfl; exact hx (List.mem_cons_self _ _)
    rw [List.cons_append, index_cons_ne hd, ih (fun h => hx (List.mem_cons_of_mem d h)),
      List.length_cons]
    push_cast
    split_ifs <;> omega

theorem index_append_after {x : List Char} {c d : Char} (hx : c ∉ x) (hd : d ≠ c) (y : List Char) :
    index (x ++ d :: y) c = -1 ∨ (x.length : Int) < index (x ++ d :: y) c := by
  have := index_ge y c
  rw [index_append hx, index_cons_ne hd]
  split_ifs <;> omega

theorem index_append_cons {x : List Char} {c : Char} (hx : c ∉ x) (y : List Char) :
    index (x ++ c :: y) c = x.length := by
  simp [index_append hx, index_cons_self]

theorem index_of_not_mem {x : List Char} {c : Char} (hx : c ∉ x) : index x c = -1 := by
  simpa using index_append hx []

/-! ## `findNext` -/

/-- `rel="next"`. -/
def relNext : List Char := "rel=\"next\"".toList

/-- Where the parameter at the start of `link` ends: at the first `;` or `,`, or at the end. -/
def paramEnd (link : List Char) : Int :=
  let i := index link ';'
  let j := index link ','
  let i := if i < 0 ∨ (j ≥ 0 ∧ j < i) then j else i
  if i < 0 then link.length else i

/-- Go's `for cond(link) { … }` over a string that every pass shortens: `body` is one pass, giving
the new `link`, or `none` where the pass returns from the function. The loop gives `none` where
a pass returned, or `link` once `cond link` fails. -/
def forLoop (cond : List Char → Bool) (body : List Char → Option (List Char))
    (shrinks : ∀ l l', cond l → body l = some l' → l'.length < l.length) (link : List Char) :
    Option (List Char) :=
  if h : cond link then
    match hb : body link with
    | none => none
    | some l' => forLoop cond body shrinks l'
  else some link
termination_by link.length
decreasing_by exact shrinks _ _ h hb

section
variable {cond : List Char → Bool} {body : List Char → Option (List Char)}
  {shrinks : ∀ l l', cond l → body l = some l' → l'.length < l.length} {link : List Char}

theorem forLoop_exit (h : ¬cond link) : forLoop cond body shrinks link = some link := by
  rw [forLoop, dif_neg h]

theorem forLoop_return (h : cond link) (hb : body link = none) :
    forLoop cond body shrinks link = none := by
  rw [forLoop, dif_pos h]
  split <;> simp_all

theorem forLoop_next {l' : List Char} (h : cond link) (hb : body link = some l') :
    forLoop cond body shrinks link = forLoop cond body shrinks l' := by
  rw [forLoop, dif_pos h]
  split <;> simp_all

theorem forLoop_length {rest : List Char} (h : forLoop cond body shrinks link = some rest) :
    rest.length ≤ link.length := by
  induction link using forLoop.induct cond body shrinks with
  | case1 l hc hb => rw [forLoop_return hc hb] at h; cases h
  | case2 l hc l' hb ih =>
    rw [forLoop_next hc hb] at h
    exact (ih h).trans (shrinks _ _ hc hb).le
  | case3 l hc => rw [forLoop_exit hc] at h; cases h; exact le_rfl

end

/-- One pass of the parameter loop of `findNext`: `none` where the parameter is `rel="next"` and
`findNext` returns, or what is left of `link`. -/
def paramPass (link : List Char) : Option (List Char) :=
  let link := trimSpace (link.drop 1)
  let i := paramEnd link
  let attr := trimSpace (link.take i.toNat)
  if attr = relNext then none else some (link.drop i.toNat)

theorem paramPass_length (l l' : List Char) (h : decide (l.head? = some ';') = true)
    (hp : paramPass l = some l') : l'.length < l.length := by
  have h0 : l.length ≠ 0 := by
    rintro h0
    rw [List.length_eq_zero.mp h0] at h
    cases h
  have h1 := trimSpace_length_le (l.drop 1)
  simp only [paramPass] at hp
  split at hp
  · cases hp
  · cases hp
    simp only [List.length_drop] at h1 ⊢
    omega

/-- The parameter loop of `findNext`, `for strings.HasPrefix(link, ";")`, in the entry of
`linkURL`: `.inl linkURL` where `findNext` returns, `.inr link` where the loop ends. -/
def params (linkURL link : List Char) : List Char ⊕ List Char :=
  match forLoop (fun l => l.head? = some ';') paramPass paramPass_length link with
  | none => .inl linkURL
  | some link => .inr link

theorem params_semicolon (linkURL r : List Char) :
    params linkURL (';' :: r) =
      if trimSpace ((trimSpace r).take (paramEnd (trimSpace r)).toNat) = relNext then .inl linkURL
      else params linkURL ((trimSpace r).drop (paramEnd (trimSpace r)).toNat) := by
  have hc : decide ((';' :: r).head? = some ';') = true := by simp
  by_cases h : trimSpace ((trimSpace r).take (paramEnd (trimSpace r)).toNat) = relNext
  · rw [if_pos h, params, forLoop_return hc (by simp [paramPass, h])]
  · rw [if_neg h, params, forLoop_next hc (by simp [paramPass, h] :
      paramPass (';' :: r) = some ((trimSpace r).drop (paramEnd (trimSpace r)).toNat))]
    rfl

theorem params_of_head {linkURL link : List Char} (h : link.head? ≠ some ';') :
    params linkURL link = .inr link := by
  rw [params, forLoop_exit (by simpa using h)]

theorem params_length {linkURL link rest : List Char} (h : params linkURL link = .inr rest) :
    rest.length ≤ link.length := by
  unfold params at h
  split at h
  · cases h
  · cases h
    exact forLoop_length ‹_›

/-- `findNext(link)`: the loop `for link != ""` over the header's entries. -/
def findNext (link : List Char) : List Char :=
  if link = [] then [] else
  let link := trimSpace link
  if link.head? ≠ some '<' then [] else
  let i := index link '>'
  if i < 0 then [] else
  let linkURL := (link.take i.toNat).drop 1
  match h : params linkURL (trimSpace (link.drop (i.toNat + 1))) with
  | .inl url => url
  | .inr (',' :: rest) => findNext (trimSpace rest)
  | .inr _ => []
termination_by link.length
decreasing_by
  rename_i l0 _ _ _
  have h1 := params_length h
  have h2 := trimSpace_length_le (List.drop (i.toNat + 1) link)
  have h3 : link.length ≤ l0.length := trimSpace_length_le l0
  have h4 := trimSpace_length_le rest
  simp only [List.length_drop, List.length_cons] at h1 h2
  omega

@[simp] theorem findNext_nil : findNext [] = [] := by
  rw [findNext.eq_def]; rfl

theorem findNext_trimSpace (s : List Char) : findNext (trimSpace s) = findNext s := by
  rw [findNext.eq_def (trimSpace s), findNext.eq_def s, trimSpace_trimSpace]
  by_cases h1 : trimSpace s = []
  · rw [if_pos h1]
    split
    · rfl
    · simp [h1]
  · rw [if_neg h1, if_neg (show ¬s = [] by rintro rfl; exact h1 rfl)]

/-! ## The header grammar -/

/-- One entry of a `Link` header as the grammar builds it: `<url>` and its parameters, with the
spaces written before `<` and after `>`. A parameter holds no `;` or `,`, and may have spaces
around it; the URL holds no `>`. -/
structure LinkEntry where
  pre : List Char
  url : List Char
  post : List Char
  params : List (List Char)
  pre_spaces : ∀ c ∈ pre, isSpace c
  url_ok : '>' ∉ url
  post_spaces : ∀ c ∈ post, isSpace c
  params_ok : ∀ p ∈ params, ';' ∉ p ∧ ',' ∉ p

/-- `pre<url>post;p₁;p₂…`. -/
def LinkEntry.render (e : LinkEntry) : List Char :=
  e.pre ++ '<' :: e.url ++ '>' :: e.post ++ e.params.flatMap (';' :: ·)

/-- A header: its entries separated by `,`. -/
def renderLink : List LinkEntry → List Char
  | [] => []
  | [e] => e.render
  | e :: es => e.render ++ ',' :: renderLink es

/-- Whether an entry has a parameter that is `rel="next"` once trimmed. -/
def LinkEntry.isNext (e : LinkEntry) : Bool := e.params.any fun p => trimSpace p = relNext

/-- The URL of the first entry with a `rel="next"` parameter, or `""`. -/
def firstNext : List LinkEntry → List Char
  | [] => []
  | e :: es => if e.isNext then e.url else firstNext es

/-- What may follow a parameter: the end, another parameter, or the next entry. -/
def ParamTail (Z : List Char) : Prop :=
  Z = [] ∨ ∃ sep rest, Z = sep :: rest ∧ (sep = ';' ∨ sep = ',')

theorem paramEnd_eq {q : List Char} (hq : ';' ∉ q ∧ ',' ∉ q) {Z : List Char} (hZ : ParamTail Z) :
    paramEnd (q ++ Z) = q.length := by
  rcases hZ with rfl | ⟨sep, rest, rfl, rfl | rfl⟩
  · simp [paramEnd, index_of_not_mem hq.1, index_of_not_mem hq.2]
  · have hj := index_append_after hq.2 (show ';' ≠ ',' by decide) rest
    unfold paramEnd
    rw [index_append_cons hq.1]
    generalize index (q ++ ';' :: rest) ',' = j at hj ⊢
    dsimp only
    rw [if_neg (by omega), if_neg (by omega)]
  · have hi := index_append_after hq.1 (show ',' ≠ ';' by decide) rest
    unfold paramEnd
    rw [index_append_cons hq.2]
    generalize index (q ++ ',' :: rest) ';' = i at hi ⊢
    dsimp only
    rw [if_pos (show i < 0 ∨ ((q.length : Int) ≥ 0 ∧ (q.length : Int) < i) by omega),
      if_neg (show ¬(q.length : Int) < 0 by omega)]

theorem param_split {p : List Char} (hp : ';' ∉ p ∧ ',' ∉ p) {Z : List Char} (hZ : ParamTail Z) :
    trimSpace ((trimSpace (p ++ Z)).take (paramEnd (trimSpace (p ++ Z))).toNat) = trimSpace p ∧
      (trimSpace (p ++ Z)).drop (paramEnd (trimSpace (p ++ Z))).toNat = trimSpace Z := by
  have hq : ';' ∉ p.dropWhile isSpace ∧ ',' ∉ p.dropWhile isSpace :=
    ⟨fun h => hp.1 ((List.dropWhile_sublist _).subset h),
      fun h => hp.2 ((List.dropWhile_sublist _).subset h)⟩
  rcases hZ with rfl | ⟨sep, rest, rfl, hsep⟩
  · have hq' : ';' ∉ trimSpace p ∧ ',' ∉ trimSpace p :=
      ⟨fun h => hp.1 ((trimSpace_sublist _).subset h), fun h => hp.2 ((trimSpace_sublist _).subset h)⟩
    have := paramEnd_eq hq' (Or.inl rfl)
    simp only [List.append_nil] at this ⊢
    simp [this, trimSpace_trimSpace]
  · have hsp : ¬isSpace sep := by rcases hsep with rfl | rfl <;> decide
    have hL : trimSpace (p ++ sep :: rest) = p.dropWhile isSpace ++ sep :: rest.rdropWhile isSpace := by
      rw [trimSpace, rdropWhile_append_cons _ _ hsp, List.dropWhile_append]
      split
      · next h => rw [List.isEmpty_iff.mp h, List.nil_append, List.dropWhile_cons_of_neg hsp]
      · rfl
    rw [hL, paramEnd_eq hq (.inr ⟨sep, _, rfl, hsep⟩), Int.toNat_ofNat,
      List.take_left, List.drop_left, trimSpace_dropWhile]
    exact ⟨rfl, (trimSpace_cons hsp rest).symm⟩

theorem params_flatMap (linkURL : List Char) (ps : List (List Char))
    (hps : ∀ p ∈ ps, ';' ∉ p ∧ ',' ∉ p) {tail : List Char}
    (htail : tail = [] ∨ ∃ rest, tail = ',' :: rest) :
    params linkURL (trimSpace (ps.flatMap (';' :: ·) ++ tail)) =
      if ps.any (fun p => trimSpace p = relNext) then .inl linkURL else .inr (trimSpace tail) := by
  induction ps with
  | nil =>
    refine params_of_head ?_
    rcases htail with rfl | ⟨rest, rfl⟩
    · simp
    · rw [List.flatMap_nil, List.nil_append, trimSpace_cons (by decide)]
      simp
  | cons p ps ih =>
    have hZ : ParamTail (ps.flatMap (';' :: ·) ++ tail) := by
      rcases ps with _ | ⟨p', ps⟩
      · rcases htail with rfl | ⟨rest, rfl⟩
        · exact .inl rfl
        · exact .inr ⟨',', rest, rfl, .inr rfl⟩
      · exact .inr ⟨';', _, rfl, .inl rfl⟩
    obtain ⟨hattr, hrest⟩ := param_split (hps p (List.mem_cons_self p ps)) hZ
    simp only [List.flatMap_cons, List.cons_append, List.append_assoc]
    rw [trimSpace_cons (by decide), params_semicolon, trimSpace_rdropWhile]
    simp only [hattr, hrest, ih (fun q hq => hps q (List.mem_cons_of_mem p hq)), List.any_cons,
      Bool.or_eq_true, decide_eq_true_eq]
    by_cases h : trimSpace p = relNext <;> simp [h]

theorem findNext_render_append (e : LinkEntry) {tail : List Char}
    (htail : tail = [] ∨ ∃ rest, tail = ',' :: rest) :
    findNext (e.render ++ tail) = if e.isNext then e.url else findNext tail.tail := by
  have hlink : trimSpace (e.render ++ tail) =
      '<' :: e.url ++ '>' :: (e.post ++ e.params.flatMap (';' :: ·) ++ tail).rdropWhile isSpace := by
    simp only [LinkEntry.render, List.append_assoc, List.cons_append]
    rw [trimSpace_spaces_append e.pre_spaces (by decide),
      rdropWhile_append_cons _ _ (show ¬isSpace '>' by decide)]
  set L := trimSpace (e.render ++ tail)
  have hi : (index L '>').toNat = e.url.length + 1 := by
    rw [hlink, index_append_cons]
    · simp
    · simpa using e.url_ok
  have hurl : (L.take (index L '>').toNat).drop 1 = e.url := by
    rw [hi, hlink]
    simp
  have hrest : trimSpace (L.drop ((index L '>').toNat + 1)) =
      trimSpace (e.params.flatMap (';' :: ·) ++ tail) := by
    rw [hi, hlink, show e.url.length + 1 + 1 = ('<' :: e.url).length + 1 from rfl, List.drop_append,
      List.drop_one, List.tail_cons, trimSpace_rdropWhile, List.append_assoc,
      trimSpace_leading_spaces e.post_spaces]
  have hp : params e.url (trimSpace (e.params.flatMap (';' :: ·) ++ tail)) =
      if e.isNext then .inl e.url else .inr (trimSpace tail) :=
    params_flatMap e.url e.params e.params_ok htail
  have hne : e.render ++ tail ≠ [] := by simp [LinkEntry.render]
  have hhead : L.head? = some '<' := by rw [hlink]; rfl
  have hpos : ¬index L '>' < 0 := by have := index_ge L '>'; omega
  rw [findNext.eq_def, if_neg hne]
  simp only [hhead, ne_eq, not_true_eq_false, if_false, hpos]
  by_cases hn : e.isNext
  · split <;> rename_i h <;> rw [hurl, hrest, hp, if_pos hn] at h <;> cases h
    rw [if_pos hn]
  · rw [if_neg hn]
    split
    · next url h => rw [hurl, hrest, hp, if_neg hn] at h; cases h
    · next rest h =>
      rw [hurl, hrest, hp, if_neg hn] at h
      rcases htail with rfl | ⟨r, rfl⟩
      · cases Sum.inr.inj h
      · rw [trimSpace_cons (by decide)] at h
        obtain rfl := (List.cons.inj (Sum.inr.inj h)).2
        rw [trimSpace_rdropWhile, findNext_trimSpace, List.tail_cons]
    · next val hval h =>
      rw [hurl, hrest, hp, if_neg hn] at h
      rcases htail with rfl | ⟨r, rfl⟩
      · simp
      · rw [trimSpace_cons (by decide)] at h
        exact absurd (Sum.inr.inj h).symm (hval _)

/-- On every header the grammar builds, `findNext` returns the URL of the first entry with a
`rel="next"` parameter, or `""`. -/
theorem findNext_renderLink (es : List LinkEntry) : findNext (renderLink es) = firstNext es := by
  induction es using renderLink.induct with
  | case1 => simp [renderLink, firstNext]
  | case2 e =>
    rw [renderLink, ← List.append_nil e.render, findNext_render_append e (.inl rfl)]
    simp [firstNext]
  | case3 e es hes ih =>
    rw [renderLink, findNext_render_append e (.inr ⟨_, rfl⟩), List.tail_cons, ih]
    · rfl
    · exact hes

end Gaby.Github
