import Gaby.Httprr.Trace

/-!
# Secrets from `.netrc`

`secret.Netrc` reads `$NETRC` or `$HOME/.netrc` with `openNetrc`: it splits the file at newlines,
and a line whose `strings.Fields` are `machine name login user password pass` sets the secret
`name` to `user:pass`, a later line replacing an earlier one; every other line is ignored, and a
file that cannot be read gives no secrets. The GitHub client cuts the `api.github.com` secret at
its first `:` into the user and password of its requests (`githubAuth`), and `gemini.NewClient`
keeps what follows the first `:` of the `ai.google.dev` secret as its API key (`geminiKey`).

* `fieldsFrom_append`, `fieldsFrom_space`, `fields_entryLine`: `Fields` of a line written as
  `machine M login U password P`, for tokens without spaces, are the six tokens.
* `split_lines`: `strings.Split` at `\n` of lines that each end in `\n`.
* `netrc_secrets`: a `.netrc` written from any entries reads back, for every machine, the login
  and password of its last entry; and the GitHub client and the Gemini client use that login and
  password, or that password, when the login has no `:`.
-/

namespace Gaby.Secret

open Github Github.Txtar Httprr

/-- `strings.Fields(s)`, from a field that started with `acc`: the runs of characters that are
not `unicode.IsSpace`, in order. -/
def fieldsFrom (acc : List Char) : List Char → List (List Char)
  | [] => if acc = [] then [] else [acc]
  | c :: s =>
    if isSpace c then (if acc = [] then fieldsFrom [] s else acc :: fieldsFrom [] s)
    else fieldsFrom (acc ++ [c]) s

/-- `strings.Fields(s)`. -/
def fields (s : List Char) : List (List Char) := fieldsFrom [] s

/-- A `ReadOnlyMap`: `Get(name)` is `get name`. -/
abbrev ReadOnlyMap := OMap (List Char) (List Char)

/-- The loop body of `openNetrc` for one line. -/
def netrcLine (m : ReadOnlyMap) (line : List Char) : ReadOnlyMap :=
  match fields line with
  | [f0, f1, f2, f3, f4, f5] =>
    if f0 = "machine".toList ∧ f2 = "login".toList ∧ f4 = "password".toList then
      m.set f1 (f3 ++ ':' :: f5)
    else m
  | _ => m

/-- `openNetrc(file)`, for what `os.ReadFile(file)` returned. -/
def openNetrc : Except String (List Char) → ReadOnlyMap
  | .error _ => .empty
  | .ok data => (split data "\n".toList).foldl netrcLine .empty

/-- `auth, _ := c.secret.Get("api.github.com")` and `user, pass, _ := strings.Cut(auth, ":")`
in `Client.get`: the user and password of its requests. -/
def githubAuth (sdb : ReadOnlyMap) : List Char × List Char :=
  let r := cut ((sdb.get "api.github.com".toList).getD []) [':']
  (r.1, r.2.1)

/-- The API key `gemini.NewClient` passes on: the `ai.google.dev` secret, or what follows its
first `:`. -/
def geminiKey (sdb : ReadOnlyMap) : Except String (List Char) :=
  match sdb.get "ai.google.dev".toList with
  | none => .error "missing api key for ai.google.dev"
  | some key =>
    let r := cut key [':']
    .ok (if r.2.2 then r.2.1 else key)

/-! ## `Fields` -/

/-- A token of a `.netrc` line: not empty, and without a space. -/
def Token (t : List Char) : Prop := t ≠ [] ∧ ∀ c ∈ t, isSpace c = false

instance : DecidablePred Token := fun t =>
  inferInstanceAs (Decidable (t ≠ [] ∧ ∀ c ∈ t, isSpace c = false))

theorem Token.newline_not_mem {t : List Char} (h : Token t) : '\n' ∉ t :=
  fun hm => absurd (h.2 _ hm) (by decide)

theorem fieldsFrom_append {w : List Char} (hw : ∀ c ∈ w, isSpace c = false) :
    ∀ (acc s : List Char), fieldsFrom acc (w ++ s) = fieldsFrom (acc ++ w) s := by
  induction w with
  | nil => simp
  | cons c w ih =>
    intro acc s
    rw [List.cons_append, fieldsFrom, if_neg (by simp [hw c (List.mem_cons_self _ _)]),
      ih (fun d hd => hw d (List.mem_cons_of_mem _ hd)), List.append_assoc, List.singleton_append]

theorem fieldsFrom_space {c : Char} (hc : isSpace c = true) {acc : List Char} (ha : acc ≠ [])
    (s : List Char) : fieldsFrom acc (c :: s) = acc :: fieldsFrom [] s := by
  rw [fieldsFrom, if_pos hc, if_neg ha]

theorem fieldsFrom_token {w : List Char} (hw : Token w) (s : List Char) :
    fieldsFrom [] (w ++ ' ' :: s) = w :: fieldsFrom [] s := by
  rw [fieldsFrom_append hw.2, List.nil_append, fieldsFrom_space (by decide) hw.1]

theorem fields_six {w0 w1 w2 w3 w4 w5 : List Char} (h0 : Token w0) (h1 : Token w1)
    (h2 : Token w2) (h3 : Token w3) (h4 : Token w4) (h5 : Token w5) :
    fields (w0 ++ ' ' :: w1 ++ ' ' :: w2 ++ ' ' :: w3 ++ ' ' :: w4 ++ ' ' :: w5) =
      [w0, w1, w2, w3, w4, w5] := by
  simp only [fields, List.append_assoc, List.cons_append]
  rw [fieldsFrom_token h0, fieldsFrom_token h1, fieldsFrom_token h2, fieldsFrom_token h3,
    fieldsFrom_token h4, ← List.append_nil w5, fieldsFrom_append h5.2, List.nil_append,
    List.append_nil, fieldsFrom, if_neg h5.1]

/-- The `.netrc` line of an entry `(machine, login, password)`. -/
def entryLine (e : List Char × List Char × List Char) : List Char :=
  "machine".toList ++ ' ' :: e.1 ++ ' ' :: "login".toList ++ ' ' :: e.2.1 ++ ' ' ::
    "password".toList ++ ' ' :: e.2.2

theorem fields_entryLine {e : List Char × List Char × List Char}
    (he : Token e.1 ∧ Token e.2.1 ∧ Token e.2.2) :
    fields (entryLine e) =
      ["machine".toList, e.1, "login".toList, e.2.1, "password".toList, e.2.2] :=
  fields_six (by decide) he.1 (by decide) he.2.1 (by decide) he.2.2

theorem netrcLine_entryLine (m : ReadOnlyMap) {e : List Char × List Char × List Char}
    (he : Token e.1 ∧ Token e.2.1 ∧ Token e.2.2) :
    netrcLine m (entryLine e) = m.set e.1 (e.2.1 ++ ':' :: e.2.2) := by
  rw [netrcLine, fields_entryLine he]
  simp

/-! ## Lines -/

theorem split_lines : ∀ (ls : List (List Char)), (∀ l ∈ ls, '\n' ∉ l) →
    ∀ fuel, ls.length ≤ fuel →
      splitN "\n".toList fuel (ls.flatMap fun l => l ++ ['\n']) = ls ++ [[]]
  | [], _, fuel, _ => by
    cases fuel <;> simp [splitN, cut_char_absent (List.not_mem_nil '\n')]
  | l :: ls, h, fuel + 1, hf => by
    have hcut : cut (l ++ '\n' :: ls.flatMap fun l => l ++ ['\n']) "\n".toList =
        (l, ls.flatMap fun l => l ++ ['\n'], true) :=
      cut_char_of_not_mem _ (h l (List.mem_cons_self _ _))
    rw [List.flatMap_cons, List.append_assoc, List.singleton_append, splitN, hcut]
    dsimp only
    rw [if_pos rfl, split_lines ls (fun l hl => h l (List.mem_cons_of_mem _ hl)) fuel
      (Nat.le_of_succ_le_succ hf), List.cons_append]

theorem length_le_length_lines : ∀ ls : List (List Char),
    ls.length ≤ (ls.flatMap fun l => l ++ ['\n']).length
  | [] => le_rfl
  | l :: ls => by
    have := length_le_length_lines ls
    simp only [List.flatMap_cons, List.length_append, List.length_cons, List.length_singleton]
    omega

/-- A `.netrc` with the entries, one per line. -/
def netrcText (es : List (List Char × List Char × List Char)) : List Char :=
  (es.map entryLine).flatMap fun l => l ++ ['\n']

/-- The login and password of the last entry for machine `m`. -/
def lastEntry (m : List Char) :
    List (List Char × List Char × List Char) → Option (List Char × List Char)
  | [] => none
  | e :: es => (lastEntry m es).or (if e.1 = m then some e.2 else none)

theorem get_foldl_entryLine (m : List Char) :
    ∀ (es : List (List Char × List Char × List Char)) (sdb : ReadOnlyMap),
      (∀ e ∈ es, Token e.1 ∧ Token e.2.1 ∧ Token e.2.2) →
      ((es.map entryLine).foldl netrcLine sdb).get m =
        ((lastEntry m es).map fun up => up.1 ++ ':' :: up.2).or (sdb.get m)
  | [], _, _ => by simp [lastEntry]
  | e :: es, sdb, h => by
    rw [List.map_cons, List.foldl_cons, netrcLine_entryLine sdb (h e (List.mem_cons_self _ _)),
      get_foldl_entryLine m es _ fun e he => h e (List.mem_cons_of_mem _ he)]
    simp only [lastEntry, OMap.get_set]
    by_cases hm : e.1 = m <;> cases lastEntry m es <;> simp [hm, Ne.symm]

theorem cut_secret {u p : List Char} (hu : ':' ∉ u) : cut (u ++ ':' :: p) [':'] = (u, p, true) :=
  cut_char_of_not_mem p hu

/-- **`.netrc` round trip**: a `.netrc` written from any entries of tokens, one line each, gives
every machine the `login:password` of its last entry and no secret to a machine without one; the
GitHub client's requests then carry that login and password, and the Gemini client that
password, when the login has no `:`. -/
theorem netrc_secrets (es : List (List Char × List Char × List Char))
    (hes : ∀ e ∈ es, Token e.1 ∧ Token e.2.1 ∧ Token e.2.2) :
    (∀ m, (openNetrc (.ok (netrcText es))).get m =
      (lastEntry m es).map fun up => up.1 ++ ':' :: up.2) ∧
    (∀ u p, lastEntry "api.github.com".toList es = some (u, p) → ':' ∉ u →
      githubAuth (openNetrc (.ok (netrcText es))) = (u, p)) ∧
    (∀ u p, lastEntry "ai.google.dev".toList es = some (u, p) → ':' ∉ u →
      geminiKey (openNetrc (.ok (netrcText es))) = .ok p) := by
  have hnl : ∀ l ∈ es.map entryLine, '\n' ∉ l := by
    intro l hl
    obtain ⟨e, he, rfl⟩ := List.mem_map.1 hl
    obtain ⟨h1, h2, h3⟩ := hes e he
    simp [entryLine, h1.newline_not_mem, h2.newline_not_mem, h3.newline_not_mem]
  have hget : ∀ m, (openNetrc (.ok (netrcText es))).get m =
      (lastEntry m es).map fun up => up.1 ++ ':' :: up.2 := by
    intro m
    rw [openNetrc, split, netrcText, split_lines _ hnl _ (length_le_length_lines _),
      List.foldl_append, List.foldl_cons, List.foldl_nil,
      show ∀ sdb, netrcLine sdb [] = sdb from fun _ => rfl, get_foldl_entryLine m es _ hes,
      OMap.get_empty, Option.or_none]
  refine ⟨hget, fun u p h hu => ?_, fun u p h hu => ?_⟩
  · unfold githubAuth
    rw [hget, h, Option.map_some', Option.getD_some, cut_secret hu]
  · unfold geminiKey
    rw [hget, h, Option.map_some']
    simp only [cut_secret hu, if_true]

/-- The two secrets gaby reads, in one `.netrc`. -/
def gabyEntries : List (List Char × List Char × List Char) :=
  [("api.github.com".toList, "gaby".toList, "ghp1".toList),
    ("ai.google.dev".toList, "gaby".toList, "AIza1".toList)]

/-- gaby's `.netrc` gives the GitHub client `gaby` and `ghp1`, and the Gemini client `AIza1`. -/
theorem netrc_secrets_gaby :
    (∀ e ∈ gabyEntries, Token e.1 ∧ Token e.2.1 ∧ Token e.2.2) ∧
    (∀ m, (openNetrc (.ok (netrcText gabyEntries))).get m =
      (lastEntry m gabyEntries).map fun up => up.1 ++ ':' :: up.2) ∧
    (∀ u p, lastEntry "api.github.com".toList gabyEntries = some (u, p) → ':' ∉ u →
      githubAuth (openNetrc (.ok (netrcText gabyEntries))) = (u, p)) ∧
    (∀ u p, lastEntry "ai.google.dev".toList gabyEntries = some (u, p) → ':' ∉ u →
      geminiKey (openNetrc (.ok (netrcText gabyEntries))) = .ok p) :=
  ⟨by decide, netrc_secrets gabyEntries (by decide)⟩

end Gaby.Secret
