import Mathlib.Logic.Relation

/-!
# The comment fixer's Markdown rewrite

`Fixer.Fix` parses a comment into a Markdown tree and runs one `fixOne` pass per rule over it.
A pass walks the blocks `fixBlock` descends into (documents, quotes, lists, items, headings and
paragraphs). It walks their inlines through `Del`, `Emph`, `Strong` and `Link`, counting the
`Link`s it is inside (`link`). At every inline, after the inline's children, it calls the rule's
fix function, with `flagLink` when inside a link, and splices in what the function returns
(`fixInlines`).

The rules are `AutoLink`, `ReplaceText` and `ReplaceURL` (`Rule.fix`), over a compiled
`regexp.Regexp` given by the calls the fixer makes on it (`Regexp`). Parsing, `ToMarkdown`, the
compile errors and the error log of an invalid fix result are not modelled.

What a pass of rule `r` may do is `Rule.InlinesOk`/`Rule.BlockOk`: each inline visited, with its
children rewritten, is kept or rewritten as `r` allows (`Rule.Rewrites`). `AutoLink` splits
a plain text without a `Link` ancestor into plain texts and links. `ReplaceText` rewrites a
plain text. `ReplaceURL` rewrites a link's or autolink's URL, and its visible text when that was
the old URL. Every pass stays within what its rule allows (`fixOne_ok`). So the whole rewrite
changes nothing else, and creates no link inside a link (`fixDoc_safe`). `AutoLink` is not
idempotent, though: a second pass of the rule can link text that the first pass split off
(`autoLink_second_pass`).

Within one plain text, `AutoLink`'s split keeps the text: when the matches are ordered,
non-overlapping intervals of the text (`MatchesOk`), the plain texts and link texts it returns
read back the text, each link wraps one match, and it returns nothing exactly inside link text
or when no match ends after 0 (`autoLink_keeps_text`).
-/

namespace Gaby.Commentfix

/-- A Markdown inline node, with the fields the fixer reads or writes. -/
inductive Inline
  | plain (text : String)
  | code (text : String)
  | html (text : String)
  | emph (inner : List Inline)
  | strong (inner : List Inline)
  | del (inner : List Inline)
  | link (inner : List Inline) (url title : String)
  | image (inner : List Inline) (url title : String)
  | autoLink (text url : String)
  /-- `Escaped`, `Emoji`, `SoftBreak`, `HardBreak` and the other leaves. -/
  | leaf (kind text : String)
deriving Repr

/-- A Markdown block node. A heading's or paragraph's `Text` is its inlines. -/
inductive Block
  | document (blocks : List Block)
  | quote (blocks : List Block)
  | list (items : List Block)
  | item (blocks : List Block)
  | heading (level : Nat) (text : List Inline)
  | paragraph (text : List Inline)
  | codeBlock (text : String)
  | htmlBlock (text : String)
  | table (header : List (List Inline)) (rows : List (List (List Inline)))
  | thematicBreak
  | empty
deriving Repr

/-- A compiled `regexp.Regexp`, by the calls the fixer makes on it. A match is Go's `[]int` of
submatch positions, the whole match first; positions count characters. -/
structure Regexp where
  /-- `FindAllStringSubmatchIndex(text, -1)`. -/
  findAll : String → List (List Int)
  /-- `FindStringSubmatchIndex(text)`. -/
  find : String → Option (List Int)
  /-- `ExpandString(nil, template, src, match)`. -/
  expand : String → String → List Int → String
  /-- `ReplaceAllString(src, repl)`. -/
  replaceAll : String → String → String

/-- What a fix function returns for a node: `nil`, a node, or a slice of nodes. -/
inductive Fixed
  | nil
  | node (x : Inline)
  | nodes (xs : List Inline)

/-- `flagLink = 1 << iota`: the inline is link text. -/
def flagLink : Nat := 1

/-- `text[a:b]`. -/
def slice (text : String) (a b : Nat) : String := ⟨(text.toList.drop a).take (b - a)⟩

/-- `AutoLink`'s loop over the matches, from `start`: the inlines it appends, and `start` after
the last match. -/
def linkMatches (re : Regexp) (url text : String) : List (List Int) → Nat → List Inline × Nat
  | [], start => ([], start)
  | m :: ms, start =>
    let m0 := (m.getD 0 0).toNat
    let m1 := (m.getD 1 0).toNat
    let r := linkMatches re url text ms m1
    ((if start < m0 then [.plain (slice text start m0)] else []) ++
      .link [.plain (slice text m0 m1)] (re.expand url text m) "" :: r.1, r.2)

/-- The fix function of `AutoLink(pattern, url)`, for the compiled `pattern`. -/
def autoLinkFix (re : Regexp) (url : String) (x : Inline) (flags : Nat) : Fixed :=
  if flags &&& flagLink ≠ 0 then .nil else
  match x with
  | .plain text =>
    let r := linkMatches re url text (re.findAll text) 0
    if r.2 = 0 then .nil else .nodes (r.1 ++ [.plain (slice text r.2 text.length)])
  | _ => .nil

/-- The fix function of `ReplaceText(pattern, repl)`. -/
def replaceTextFix (re : Regexp) (repl : String) : Inline → Nat → Fixed
  | .plain text, _ => if re.find text = none then .nil else .node (.plain (re.replaceAll text repl))
  | _, _ => .nil

/-- A link's text after its URL `old` became `new`: a single plain text that was `old` becomes
`new`. -/
def relabel (inner : List Inline) (old new : String) : List Inline :=
  match inner with
  | [.plain t] => if t = old then [.plain new] else inner
  | _ => inner

/-- The fix function of `ReplaceURL(pattern, repl)`, for `re` compiled from `\A(?:pattern)`. -/
def replaceURLFix (re : Regexp) (repl : String) : Inline → Nat → Fixed
  | .autoLink text url, _ =>
    let url' := re.replaceAll url repl
    if url' = url then .nil else .node (.autoLink (if text = url then url' else text) url')
  | .link inner url title, _ =>
    let url' := re.replaceAll url repl
    if url' = url then .nil else .node (.link (relabel inner url url') url' title)
  | _, _ => .nil

/-- A rule of the fixer, with its compiled pattern. -/
inductive Rule
  | autoLink (re : Regexp) (url : String)
  | replaceText (re : Regexp) (repl : String)
  | replaceURL (re : Regexp) (repl : String)

/-- The fix function a rule appends to `f.fixes`. -/
def Rule.fix : Rule → Inline → Nat → Fixed
  | .autoLink re url => autoLinkFix re url
  | .replaceText re repl => replaceTextFix re repl
  | .replaceURL re repl => replaceURLFix re repl

/-! ## One pass -/

mutual

/-- `fixInlines`' recursion into the children of `x`, inside `link` links: `x` with its
children fixed, and whether a child list changed. -/
def fixInner (fix : Inline → Nat → Fixed) (link : Nat) : Inline → Inline × Bool
  | .del inner => let r := fixInlines fix link inner; (.del r.1, r.2)
  | .emph inner => let r := fixInlines fix link inner; (.emph r.1, r.2)
  | .strong inner => let r := fixInlines fix link inner; (.strong r.1, r.2)
  | .link inner url title =>
    let r := fixInlines fix (link + 1) inner
    (.link r.1 url title, r.2)
  | x => (x, false)

/-- `fixInlines(&inlines)`, inside `link` links: the new inlines, and whether anything changed. -/
def fixInlines (fix : Inline → Nat → Fixed) (link : Nat) : List Inline → List Inline × Bool
  | [] => ([], false)
  | x :: xs =>
    let c := fixInner fix link x
    let rest := fixInlines fix link xs
    match fix c.1 (if 0 < link then flagLink else 0) with
    | .nil => (c.1 :: rest.1, c.2 || rest.2)
    | .node y => (y :: rest.1, true)
    | .nodes ys => (ys ++ rest.1, true)

end

mutual

/-- `fixBlock(x)`: the new block, and whether anything changed. -/
def fixBlock (fix : Inline → Nat → Fixed) : Block → Block × Bool
  | .document bs => let r := fixBlocks fix bs; (.document r.1, r.2)
  | .quote bs => let r := fixBlocks fix bs; (.quote r.1, r.2)
  | .list items => let r := fixBlocks fix items; (.list r.1, r.2)
  | .item bs => let r := fixBlocks fix bs; (.item r.1, r.2)
  | .heading level text => let r := fixInlines fix 0 text; (.heading level r.1, r.2)
  | .paragraph text => let r := fixInlines fix 0 text; (.paragraph r.1, r.2)
  | b => (b, false)

/-- `fixBlock` over a block list. -/
def fixBlocks (fix : Inline → Nat → Fixed) : List Block → List Block × Bool
  | [] => ([], false)
  | b :: bs => let r := fixBlock fix b; let rs := fixBlocks fix bs; (r.1 :: rs.1, r.2 || rs.2)

end

/-- `fixOne(fix, doc)`: the new document, and whether it changed. -/
def fixOne (fix : Inline → Nat → Fixed) (doc : Block) : Block × Bool := fixBlock fix doc

/-- `Fix`'s loop over `f.fixes`: the document after one pass per rule, and whether a pass
changed it. -/
def fixDoc : List Rule → Block → Block × Bool
  | [], doc => (doc, false)
  | r :: rules, doc =>
    let p := fixOne r.fix doc
    let q := fixDoc rules p.1
    (q.1, p.2 || q.2)

/-- `Fix(text)`, for the parser and `markdown.ToMarkdown`: the new text, or `none` when no rule
applied. -/
def fixText (rules : List Rule) (parse : String → Block) (toMarkdown : Block → String)
    (text : String) : Option String :=
  let r := fixDoc rules (parse text)
  if r.2 then some (toMarkdown r.1) else none

/-! ## What a pass may change -/

/-- What `AutoLink` splits a plain text into: plain texts, and new links around a plain text. -/
def LinkPiece : Inline → Prop
  | .plain _ => True
  | .link [.plain _] _ "" => True
  | _ => False

/-- The rewrites rule `r`'s fix function may make of the inline `x`, where `inLink` says `x`
has a `Link` ancestor. -/
def Rule.Rewrites : Rule → Bool → Inline → List Inline → Prop
  | .autoLink _ _, inLink, .plain _, ys => inLink = false ∧ ∀ y ∈ ys, LinkPiece y
  | .replaceText _ _, _, .plain _, ys => ∃ t, ys = [.plain t]
  | .replaceURL _ _, _, .autoLink text url, ys =>
    ∃ url', ys = [.autoLink (if text = url then url' else text) url']
  | .replaceURL _ _, _, .link inner url title, ys =>
    ∃ url', ys = [.link (relabel inner url url') url' title]
  | _, _, _, _ => False

mutual

/-- `x'` is `x` with its children rewritten by a pass of `r` at link depth `d`; the text of a
`Link` is at depth `d + 1`. -/
def Rule.InnerOk (r : Rule) (d : Nat) : Inline → Inline → Prop
  | .del inner, x' => ∃ inner', r.InlinesOk d inner inner' ∧ x' = .del inner'
  | .emph inner, x' => ∃ inner', r.InlinesOk d inner inner' ∧ x' = .emph inner'
  | .strong inner, x' => ∃ inner', r.InlinesOk d inner inner' ∧ x' = .strong inner'
  | .link inner url title, x' => ∃ inner', r.InlinesOk (d + 1) inner inner' ∧ x' = .link inner' url title
  | x, x' => x' = x

/-- What a pass of `r` may turn inlines at link depth `d` into: each inline, with its children
rewritten, kept or rewritten as `r` allows. -/
def Rule.InlinesOk (r : Rule) (d : Nat) : List Inline → List Inline → Prop
  | [], ys => ys = []
  | x :: xs, ys => ∃ x' ys₁ ys₂, r.InnerOk d x x' ∧
      (ys₁ = [x'] ∨ r.Rewrites (decide (0 < d)) x' ys₁) ∧ r.InlinesOk d xs ys₂ ∧ ys = ys₁ ++ ys₂

end

mutual

/-- What a pass of `r` may turn a block into: only the inlines of headings and paragraphs
that `fixBlock` reaches change, at link depth `0`. -/
def Rule.BlockOk (r : Rule) : Block → Block → Prop
  | .document bs, b' => ∃ bs', r.BlocksOk bs bs' ∧ b' = .document bs'
  | .quote bs, b' => ∃ bs', r.BlocksOk bs bs' ∧ b' = .quote bs'
  | .list items, b' => ∃ items', r.BlocksOk items items' ∧ b' = .list items'
  | .item bs, b' => ∃ bs', r.BlocksOk bs bs' ∧ b' = .item bs'
  | .heading level text, b' => ∃ text', r.InlinesOk 0 text text' ∧ b' = .heading level text'
  | .paragraph text, b' => ∃ text', r.InlinesOk 0 text text' ∧ b' = .paragraph text'
  | b, b' => b' = b

/-- `Rule.BlockOk` over a block list. -/
def Rule.BlocksOk (r : Rule) : List Block → List Block → Prop
  | [], bs' => bs' = []
  | b :: bs, bs' => ∃ b₁ bs₂, r.BlockOk b b₁ ∧ r.BlocksOk bs bs₂ ∧ bs' = b₁ :: bs₂

end

/-! ## Every pass stays within its rule -/

theorem linkMatches_pieces (re : Regexp) (url text : String) :
    ∀ (ms : List (List Int)) (start : Nat), ∀ y ∈ (linkMatches re url text ms start).1, LinkPiece y
  | [], _, _, h => nomatch h
  | m :: ms, start, y, h => by
    simp only [linkMatches, List.mem_append, List.mem_cons] at h
    rcases h with h | rfl | h
    · split_ifs at h
      · rw [List.mem_singleton.1 h]; trivial
      · exact nomatch h
    · trivial
    · exact linkMatches_pieces re url text ms _ y h

/-- The result `f` of a fix function at `x` makes only `r`'s rewrites. -/
def Rule.Allows (r : Rule) (inLink : Bool) (x : Inline) : Fixed → Prop
  | .nil => True
  | .node y => r.Rewrites inLink x [y]
  | .nodes ys => r.Rewrites inLink x ys

theorem Rule.fix_allows (r : Rule) (x : Inline) (d : Nat) :
    r.Allows (decide (0 < d)) x (r.fix x (if 0 < d then flagLink else 0)) := by
  cases r with
  | autoLink re url =>
    simp only [Rule.fix, autoLinkFix]
    by_cases hd : 0 < d
    · simp [hd, flagLink, Rule.Allows]
    · simp only [hd, if_false, Nat.zero_and, ne_eq, not_true_eq_false]
      cases x with
      | plain text =>
        dsimp only
        split_ifs
        · trivial
        · refine ⟨by simp [hd], fun y hy => ?_⟩
          rcases List.mem_append.1 hy with hy | hy
          · exact linkMatches_pieces re url text _ 0 y hy
          · rw [List.mem_singleton.1 hy]; trivial
      | _ => trivial
  | replaceText re repl =>
    cases x with
    | plain text =>
      simp only [Rule.fix, replaceTextFix]
      split_ifs
      · trivial
      · exact ⟨_, rfl⟩
    | _ => trivial
  | replaceURL re repl =>
    cases x with
    | autoLink text url =>
      simp only [Rule.fix, replaceURLFix]
      split
      · trivial
      · exact ⟨_, rfl⟩
    | link inner url title =>
      simp only [Rule.fix, replaceURLFix]
      split
      · trivial
      · exact ⟨_, rfl⟩
    | _ => trivial

mutual

theorem fixInner_ok (r : Rule) (d : Nat) : ∀ x, r.InnerOk d x (fixInner r.fix d x).1
  | .del inner => ⟨_, fixInlines_ok r d inner, rfl⟩
  | .emph inner => ⟨_, fixInlines_ok r d inner, rfl⟩
  | .strong inner => ⟨_, fixInlines_ok r d inner, rfl⟩
  | .link inner _ _ => ⟨_, fixInlines_ok r (d + 1) inner, rfl⟩
  | .plain _ | .code _ | .html _ | .image _ _ _ | .autoLink _ _ | .leaf _ _ => rfl

theorem fixInlines_ok (r : Rule) (d : Nat) : ∀ xs, r.InlinesOk d xs (fixInlines r.fix d xs).1
  | [] => rfl
  | x :: xs => by
    have hr := r.fix_allows (fixInner r.fix d x).1 d
    have hc := fixInner_ok r d x
    have ih := fixInlines_ok r d xs
    simp only [fixInlines]
    split <;> rename_i h <;> rw [h] at hr
    · exact ⟨_, [_], _, hc, .inl rfl, ih, rfl⟩
    · exact ⟨_, [_], _, hc, .inr hr, ih, rfl⟩
    · exact ⟨_, _, _, hc, .inr hr, ih, rfl⟩

end

mutual

theorem fixBlock_ok (r : Rule) : ∀ b, r.BlockOk b (fixBlock r.fix b).1
  | .document bs => ⟨_, fixBlocks_ok r bs, rfl⟩
  | .quote bs => ⟨_, fixBlocks_ok r bs, rfl⟩
  | .list items => ⟨_, fixBlocks_ok r items, rfl⟩
  | .item bs => ⟨_, fixBlocks_ok r bs, rfl⟩
  | .heading _ text => ⟨_, fixInlines_ok r 0 text, rfl⟩
  | .paragraph text => ⟨_, fixInlines_ok r 0 text, rfl⟩
  | .codeBlock _ | .htmlBlock _ | .table _ _ | .thematicBreak | .empty => rfl

theorem fixBlocks_ok (r : Rule) : ∀ bs, r.BlocksOk bs (fixBlocks r.fix bs).1
  | [] => rfl
  | b :: bs => ⟨_, _, fixBlock_ok r b, fixBlocks_ok r bs, rfl⟩

end

theorem fixOne_ok (r : Rule) (doc : Block) : r.BlockOk doc (fixOne r.fix doc).1 :=
  fixBlock_ok r doc

/-! ## No link inside a link -/

mutual

/-- The inline is a `Link` or holds one. -/
def Inline.hasLink : Inline → Bool
  | .link .. => true
  | .emph inner | .strong inner | .del inner | .image inner _ _ => anyLink inner
  | _ => false

/-- One of the inlines is a `Link` or holds one. -/
def anyLink : List Inline → Bool
  | [] => false
  | x :: xs => x.hasLink || anyLink xs

end

mutual

/-- No `Link` in the inline has a `Link` in its text. -/
def Inline.flat : Inline → Bool
  | .link inner _ _ => !anyLink inner
  | .emph inner | .strong inner | .del inner | .image inner _ _ => allFlat inner
  | _ => true

/-- `Inline.flat` of every inline. -/
def allFlat : List Inline → Bool
  | [] => true
  | x :: xs => x.flat && allFlat xs

end

mutual

/-- No `Link` in the block has a `Link` in its text. -/
def Block.flat : Block → Bool
  | .document bs | .quote bs | .list bs | .item bs => blocksFlat bs
  | .heading _ text | .paragraph text => allFlat text
  | .table header rows => header.all allFlat && rows.all (·.all allFlat)
  | _ => true

/-- `Block.flat` of every block. -/
def blocksFlat : List Block → Bool
  | [] => true
  | b :: bs => b.flat && blocksFlat bs

end

@[simp] theorem anyLink_append (xs ys : List Inline) :
    anyLink (xs ++ ys) = (anyLink xs || anyLink ys) := by
  induction xs with
  | nil => rfl
  | cons x xs ih => simp [anyLink, ih, Bool.or_assoc]

@[simp] theorem allFlat_append (xs ys : List Inline) :
    allFlat (xs ++ ys) = (allFlat xs && allFlat ys) := by
  induction xs with
  | nil => rfl
  | cons x xs ih => simp [allFlat, ih, Bool.and_assoc]

theorem Rule.Rewrites.anyLink_eq {r : Rule} {x : Inline} {ys : List Inline}
    (h : r.Rewrites true x ys) (hx : x.hasLink = false) : anyLink ys = false := by
  unfold Rule.Rewrites at h
  split at h
  · exact absurd h.1 Bool.noConfusion
  · obtain ⟨t, rfl⟩ := h; rfl
  · obtain ⟨url', rfl⟩ := h; rfl
  · exact absurd hx (by simp [Inline.hasLink])
  · exact h.elim

theorem allFlat_of_pieces : ∀ {ys : List Inline}, (∀ y ∈ ys, LinkPiece y) → allFlat ys = true
  | [], _ => rfl
  | y :: ys, h => by
    have hy : y.flat = true := by
      have := h y (.head _)
      unfold LinkPiece at this
      split at this <;> first | rfl | exact this.elim
    simp [allFlat, hy, allFlat_of_pieces fun y' hy' => h y' (.tail _ hy')]

theorem Rule.Rewrites.allFlat_eq {r : Rule} {inLink : Bool} {x : Inline} {ys : List Inline}
    (h : r.Rewrites inLink x ys) (hx : x.flat = true) : allFlat ys = true := by
  unfold Rule.Rewrites at h
  split at h
  · exact allFlat_of_pieces h.2
  · obtain ⟨t, rfl⟩ := h; rfl
  · obtain ⟨url', rfl⟩ := h; rfl
  · obtain ⟨url', rfl⟩ := h
    simp only [Inline.flat, Bool.not_eq_true'] at hx
    simp only [allFlat, Inline.flat, Bool.and_true, Bool.not_eq_true']
    unfold relabel
    split
    · split_ifs <;> simp_all [anyLink, Inline.hasLink]
    · exact hx
  · exact h.elim

mutual

theorem innerOk_hasLink (r : Rule) {d : Nat} (hd : 0 < d) :
    ∀ (x : Inline) {x' : Inline}, r.InnerOk d x x' → x.hasLink = false → x'.hasLink = false
  | .del inner, _, ⟨_, h, rfl⟩, hx => inlinesOk_anyLink r hd inner h hx
  | .emph inner, _, ⟨_, h, rfl⟩, hx => inlinesOk_anyLink r hd inner h hx
  | .strong inner, _, ⟨_, h, rfl⟩, hx => inlinesOk_anyLink r hd inner h hx
  | .link .., _, _, hx => absurd hx (by simp [Inline.hasLink])
  | .plain _, _, rfl, hx | .code _, _, rfl, hx | .html _, _, rfl, hx | .image .., _, rfl, hx
  | .autoLink .., _, rfl, hx | .leaf .., _, rfl, hx => hx

theorem inlinesOk_anyLink (r : Rule) {d : Nat} (hd : 0 < d) :
    ∀ (xs : List Inline) {ys : List Inline}, r.InlinesOk d xs ys → anyLink xs = false →
      anyLink ys = false
  | [], _, rfl, _ => rfl
  | x :: xs, _, ⟨x', ys₁, ys₂, hx', h₁, h₂, rfl⟩, hxs => by
    simp only [anyLink, Bool.or_eq_false_iff] at hxs
    have hx'' := innerOk_hasLink r hd x hx' hxs.1
    rw [anyLink_append, inlinesOk_anyLink r hd xs h₂ hxs.2, Bool.or_false]
    rcases h₁ with rfl | h₁
    · simp [anyLink, hx'']
    · rw [decide_eq_true hd] at h₁
      exact h₁.anyLink_eq hx''

end

mutual

theorem innerOk_flat (r : Rule) {d : Nat} :
    ∀ (x : Inline) {x' : Inline}, r.InnerOk d x x' → x.flat = true → x'.flat = true
  | .del inner, _, ⟨_, h, rfl⟩, hx => inlinesOk_allFlat r inner h hx
  | .emph inner, _, ⟨_, h, rfl⟩, hx => inlinesOk_allFlat r inner h hx
  | .strong inner, _, ⟨_, h, rfl⟩, hx => inlinesOk_allFlat r inner h hx
  | .link inner _ _, _, ⟨_, h, rfl⟩, hx => by
    simp only [Inline.flat, Bool.not_eq_true'] at hx ⊢
    exact inlinesOk_anyLink r (Nat.succ_pos d) inner h hx
  | .plain _, _, rfl, hx | .code _, _, rfl, hx | .html _, _, rfl, hx | .image .., _, rfl, hx
  | .autoLink .., _, rfl, hx | .leaf .., _, rfl, hx => hx

theorem inlinesOk_allFlat (r : Rule) {d : Nat} :
    ∀ (xs : List Inline) {ys : List Inline}, r.InlinesOk d xs ys → allFlat xs = true →
      allFlat ys = true
  | [], _, rfl, _ => rfl
  | x :: xs, _, ⟨x', ys₁, ys₂, hx', h₁, h₂, rfl⟩, hxs => by
    simp only [allFlat, Bool.and_eq_true] at hxs
    have hf := innerOk_flat r x hx' hxs.1
    rw [allFlat_append, inlinesOk_allFlat r xs h₂ hxs.2, Bool.and_true]
    rcases h₁ with rfl | h₁
    · simp [allFlat, hf]
    · exact h₁.allFlat_eq hf

end

mutual

theorem blockOk_flat (r : Rule) :
    ∀ (b : Block) {b' : Block}, r.BlockOk b b' → b.flat = true → b'.flat = true
  | .document bs, _, ⟨_, h, rfl⟩, hb => blocksOk_flat r bs h hb
  | .quote bs, _, ⟨_, h, rfl⟩, hb => blocksOk_flat r bs h hb
  | .list items, _, ⟨_, h, rfl⟩, hb => blocksOk_flat r items h hb
  | .item bs, _, ⟨_, h, rfl⟩, hb => blocksOk_flat r bs h hb
  | .heading _ text, _, ⟨_, h, rfl⟩, hb => inlinesOk_allFlat r text h hb
  | .paragraph text, _, ⟨_, h, rfl⟩, hb => inlinesOk_allFlat r text h hb
  | .codeBlock _, _, rfl, hb | .htmlBlock _, _, rfl, hb | .table .., _, rfl, hb
  | .thematicBreak, _, rfl, hb | .empty, _, rfl, hb => hb

theorem blocksOk_flat (r : Rule) :
    ∀ (bs : List Block) {bs' : List Block}, r.BlocksOk bs bs' → blocksFlat bs = true →
      blocksFlat bs' = true
  | [], _, rfl, _ => rfl
  | b :: bs, _, ⟨_, _, h₁, h₂, rfl⟩, hb => by
    simp only [blocksFlat, Bool.and_eq_true] at hb ⊢
    exact ⟨blockOk_flat r b h₁ hb.1, blocksOk_flat r bs h₂ hb.2⟩

end

/-! ## The whole rewrite -/

theorem fixDoc_passes (rules : List Rule) (doc : Block) :
    Relation.ReflTransGen (fun b b' => ∃ r ∈ rules, r.BlockOk b b') doc (fixDoc rules doc).1 := by
  induction rules generalizing doc with
  | nil => exact .refl
  | cons r rules ih =>
    exact .head ⟨r, .head _, fixOne_ok r doc⟩
      ((ih _).mono fun _ _ ⟨r', hr', h⟩ => ⟨r', .tail _ hr', h⟩)

theorem flat_of_passes {rules : List Rule} {doc doc' : Block}
    (h : Relation.ReflTransGen (fun b b' => ∃ r ∈ rules, r.BlockOk b b') doc doc')
    (hd : doc.flat = true) : doc'.flat = true := by
  induction h with
  | refl => exact hd
  | tail _ hs ih =>
    obtain ⟨r, -, hr⟩ := hs
    exact blockOk_flat r _ hr ih

/-- `Fix`'s rewrite is one pass of each rule in turn. Each pass makes only its rule's rewrites:
plain texts under `Document`, `Quote`, `List`, `Item`, `Heading` and `Paragraph` blocks and
`Del`, `Emph`, `Strong` and `Link` inlines (`ReplaceText`, and `AutoLink` outside links), and
the URLs of links and autolinks, with their visible text when it was the old URL
(`ReplaceURL`). Every other node is kept, and no link is put inside a link. -/
theorem fixDoc_safe (rules : List Rule) (doc : Block) :
    Relation.ReflTransGen (fun b b' => ∃ r ∈ rules, r.BlockOk b b') doc (fixDoc rules doc).1 ∧
      (doc.flat = true → (fixDoc rules doc).1.flat = true) :=
  ⟨fixDoc_passes rules doc, flat_of_passes (fixDoc_passes rules doc)⟩

/-! ## `AutoLink` twice -/

/-- `regexp.MustCompile("^a")`: without the `m` flag, `^` matches only at the start of the text
(`expand` for templates without `$`). -/
def caretA : Regexp where
  findAll s := if s.toList.head? = some 'a' then [[0, 1]] else []
  find s := if s.toList.head? = some 'a' then some [0, 1] else none
  expand template _ _ := template
  replaceAll s repl := if s.toList.head? = some 'a' then repl ++ ⟨s.toList.drop 1⟩ else s

/-- The comment `aa`, parsed. -/
def aaDoc : Block := .document [.paragraph [.plain "aa"]]

/-- `AutoLink("^a", "https://a")` links the first `a` of `aa` and splits off a plain text `a`,
which a second pass of the rule links too, reporting a change. -/
theorem autoLink_second_pass :
    fixOne (Rule.autoLink caretA "https://a").fix aaDoc =
      (.document [.paragraph [.link [.plain "a"] "https://a" "", .plain "a"]], true) ∧
    fixOne (Rule.autoLink caretA "https://a").fix
        (.document [.paragraph [.link [.plain "a"] "https://a" "", .plain "a"]]) =
      (.document [.paragraph [.link [.plain "a"] "https://a" "", .link [.plain "a"] "https://a" "",
        .plain ""]], true) :=
  ⟨rfl, rfl⟩

/-! ## What `AutoLink` keeps of the text -/

mutual
/-- The text a reader sees of an inline, as plain texts and link texts count it. -/
def Inline.visible : Inline → String
  | .plain t => t
  | .link inner _ _ => visibleText inner
  | _ => ""

/-- The text a reader sees of inlines: their plain texts and link texts, in order. -/
def visibleText : List Inline → String
  | [] => ""
  | x :: xs => x.visible ++ visibleText xs
end

/-- The links among inlines, each with its text and URL. -/
def links : List Inline → List (List Inline × String)
  | [] => []
  | .link inner url _ :: xs => (inner, url) :: links xs
  | _ :: xs => links xs

/-- What `FindAllStringSubmatchIndex` promises of its matches in a text of length `len`, from
position `p` on: each match `m` has `p ≤ m[0] ≤ m[1] ≤ len`, and the next one starts at or
after `m[1]`. -/
def MatchesOk (len : Nat) : List (List Int) → Int → Prop
  | [], _ => True
  | m :: ms, p => p ≤ m.getD 0 0 ∧ m.getD 0 0 ≤ m.getD 1 0 ∧ m.getD 1 0 ≤ len ∧
      MatchesOk len ms (m.getD 1 0)

@[simp] theorem visibleText_append (xs ys : List Inline) :
    visibleText (xs ++ ys) = visibleText xs ++ visibleText ys := by
  induction xs with
  | nil => simp [visibleText]
  | cons x xs ih => rw [List.cons_append, visibleText, visibleText, ih, String.append_assoc]

@[simp] theorem links_append (xs ys : List Inline) : links (xs ++ ys) = links xs ++ links ys := by
  induction xs with
  | nil => rfl
  | cons x xs ih => cases x <;> simp [links, ih]

theorem slice_append (text : String) {a b c : Nat} (hab : a ≤ b) (hbc : b ≤ c) :
    slice text a b ++ slice text b c = slice text a c := by
  show String.mk (_ ++ _) = String.mk _
  congr 1
  obtain ⟨d, rfl⟩ := Nat.exists_eq_add_of_le hab
  obtain ⟨e, rfl⟩ := Nat.exists_eq_add_of_le hbc
  rw [Nat.add_sub_cancel_left, Nat.add_sub_cancel_left, show a + d + e - a = d + e by omega,
    List.take_add, ← List.drop_drop]

theorem slice_self (text : String) (a : Nat) : slice text a a = "" := by
  show String.mk ((text.toList.drop a).take (a - a)) = String.mk []
  rw [Nat.sub_self, List.take_zero]

theorem linkMatches_visible (re : Regexp) (url text : String) :
    ∀ (ms : List (List Int)) (p : Nat), MatchesOk text.length ms p →
      visibleText (linkMatches re url text ms p).1 ++
        slice text (linkMatches re url text ms p).2 text.length = slice text p text.length
  | [], p, _ => by simp [linkMatches, visibleText]
  | m :: ms, p, ⟨h0, h01, h1, hms⟩ => by
    have ih := linkMatches_visible re url text ms (m.getD 1 0).toNat
      (by rwa [Int.toNat_of_nonneg (by omega)])
    have hpre : visibleText (if p < (m.getD 0 0).toNat then [.plain (slice text p (m.getD 0 0).toNat)]
        else []) = slice text p (m.getD 0 0).toNat := by
      split_ifs with hp
      · simp [visibleText, Inline.visible]
      · rw [show (m.getD 0 0).toNat = p by omega, slice_self]; rfl
    simp only [linkMatches, visibleText_append, hpre, visibleText, Inline.visible,
      String.append_empty, String.append_assoc, ih]
    rw [slice_append text (by omega) (by omega), slice_append text (by omega) (by omega)]

theorem linkMatches_links (re : Regexp) (url text : String) :
    ∀ (ms : List (List Int)) (p : Nat), links (linkMatches re url text ms p).1 =
      ms.map fun m => ([.plain (slice text (m.getD 0 0).toNat (m.getD 1 0).toNat)],
        re.expand url text m)
  | [], _ => rfl
  | m :: ms, p => by
    have hpre : links (if p < (m.getD 0 0).toNat then [.plain (slice text p (m.getD 0 0).toNat)]
        else []) = [] := by split_ifs <;> rfl
    simp only [linkMatches, links_append, hpre, links, linkMatches_links re url text ms,
      List.nil_append, List.map_cons]

theorem linkMatches_snd_eq_zero (re : Regexp) (url text : String) :
    ∀ (ms : List (List Int)) (p : Nat), MatchesOk text.length ms p →
      ((linkMatches re url text ms p).2 = 0 ↔ p = 0 ∧ ∀ m ∈ ms, m.getD 1 0 ≤ 0)
  | [], p, _ => by simp [linkMatches]
  | m :: ms, p, ⟨h0, h01, _, hms⟩ => by
    have ih := linkMatches_snd_eq_zero re url text ms (m.getD 1 0).toNat
      (by rwa [Int.toNat_of_nonneg (by omega)])
    have hend : (m.getD 1 0).toNat = 0 ↔ p = 0 ∧ m.getD 1 0 ≤ 0 := by omega
    simp only [linkMatches, ih, hend, List.mem_cons, forall_eq_or_imp, and_assoc]

theorem slice_zero_length (text : String) : slice text 0 text.length = text := by
  cases text with
  | mk l =>
    show String.mk ((l.drop 0).take (l.length - 0)) = String.mk l
    rw [List.drop_zero, Nat.sub_zero, List.take_length]

/-- `AutoLink` on a plain text whose matches are ordered, non-overlapping intervals of the text:
it returns nothing exactly inside link text or when no match ends after 0; otherwise it returns
plain texts and one link per match, which read back the whole text. -/
theorem autoLink_keeps_text (re : Regexp) (url text : String) (flags : Nat)
    (hm : MatchesOk text.length (re.findAll text) 0) :
    (autoLinkFix re url (.plain text) flags = .nil ↔
      flags &&& flagLink ≠ 0 ∨ ∀ m ∈ re.findAll text, m.getD 1 0 ≤ 0) ∧
    ∀ ys, autoLinkFix re url (.plain text) flags = .nodes ys →
      visibleText ys = text ∧
      links ys = (re.findAll text).map fun m =>
        ([.plain (slice text (m.getD 0 0).toNat (m.getD 1 0).toNat)], re.expand url text m) := by
  have hvis := linkMatches_visible re url text _ 0 hm
  have hend := linkMatches_snd_eq_zero re url text _ 0 hm
  unfold autoLinkFix
  by_cases hf : flags &&& flagLink ≠ 0
  · simp [hf]
  · by_cases h0 : (linkMatches re url text (re.findAll text) 0).2 = 0
    · simp_all
    · refine ⟨by simp_all, fun ys h => ?_⟩
      simp only [hf, h0, if_false, Fixed.nodes.injEq] at h
      subst h
      simp only [visibleText_append, links_append, visibleText, Inline.visible, links,
        String.append_empty, hvis, slice_zero_length, linkMatches_links, List.append_nil,
        and_self]

/-- `AutoLink("^a", ...)` links the `a` of `ab` and keeps `b` as plain text. -/
theorem caretA_ab_keeps_text :
    MatchesOk "ab".length (caretA.findAll "ab") 0 ∧
      visibleText [.link [.plain "a"] "https://a" "", .plain "b"] = "ab" :=
  have hm : MatchesOk "ab".length (caretA.findAll "ab") 0 := by
    simp only [MatchesOk, caretA]; decide
  ⟨hm, ((autoLink_keeps_text caretA "https://a" "ab" 0 hm).2 _ rfl).1⟩

/-- Inside link text `AutoLink("^a", ...)` returns nothing for `a`, although its match `[0, 1]`
ends after 0. -/
theorem caretA_linkText_nil :
    autoLinkFix caretA "https://a" (.plain "a") flagLink = .nil ∧ caretA.findAll "a" = [[0, 1]] :=
  ⟨rfl, rfl⟩

end Gaby.Commentfix
