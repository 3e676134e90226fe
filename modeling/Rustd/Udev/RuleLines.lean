import Rustd.Udev.Rules

/-!
# Lines of udev rules

`src/udev.rs`: `parse_rule_line` cuts a line into fields and reads a token from each field. The
operator is searched in the whole field, in the order of a table, and quotes are stripped from both
ends of a value, so that not every token is read back from its text.
-/

namespace Rustd.Udev

open Base List

/-- What is reported; `slice` is the failure of the program at a brace that closes before it
opens. -/
inductive RuleError where
  | unterminated
  | badKey (key : Text)
  | missingOperator (field : Text)
  | slice
  deriving DecidableEq

/-- Letters before the first field. -/
def prepend (u : Text) (fields : Text × List Text) : Text × List Text :=
  (u ++ fields.1, fields.2)

/-- The first field and the others that the loop of `parse_rule_line` cuts, with its two flags. -/
def fieldsOf (quote escape : Bool) : Text → Option (Text × List Text)
  | [] => if quote then none else some ([], [])
  | c :: rest =>
    if escape then (fieldsOf quote false rest).map (prepend [c])
    else if c = '\\' then (fieldsOf quote true rest).map (prepend [c])
    else if c = '"' then (fieldsOf (!quote) false rest).map (prepend [c])
    else if c = ',' ∧ quote = false then
      (fieldsOf quote false rest).map fun fields => ([], fields.1 :: fields.2)
    else (fieldsOf quote false rest).map (prepend [c])

def Operator.text : Operator → Text
  | .matches => ['=', '=']
  | noMatch => ['!', '=']
  | final => [':', '=']
  | add => ['+', '=']
  | assign => ['=']

/-- The operators in the order in which `parse_token` tries them. -/
def Operator.all : List Operator := [.matches, noMatch, final, add, assign]

def trimQuotes (text : Text) : Text :=
  (text.dropWhile (· == '"')).rdropWhile (· == '"')

/-- `parse_token` of `src/udev.rs:289`. -/
def parseToken (field : Text) : Except RuleError Token :=
  match Operator.all.findSome? fun op => (splitOnceAt op.text field).map fun ps => (op, ps) with
  | none => .error (.missingOperator field)
  | some (op, rawKey, rawValue) =>
    let rawKey := trim rawKey
    let value := replaceFrom ['\\', '"'] ['"'] 0 (trimQuotes (trim rawValue))
    match splitOnce '{' rawKey with
    | none => .ok ⟨rawKey.map Char.toUpper, none, op, value⟩
    | some (before, _) =>
      match rsplitOnce '}' rawKey with
      | none => .error (.badKey rawKey)
      | some (inner, _) =>
        if inner.length ≤ before.length then .error .slice
        else .ok ⟨(trim before).map Char.toUpper, some (inner.drop (before.length + 1)), op, value⟩

/-- `parse_rule_line` of `src/udev.rs:259`. -/
def parseRuleLine (line : Text) : Except RuleError (List Token) :=
  match fieldsOf false false line with
  | none => .error .unterminated
  | some (first, more) => (first :: more).mapM fun field => parseToken (trim field)

/-! ### Rendered tokens -/

/-- Whether a quote is open and whether the next letter is hidden by a backslash, behind a text. A
text with a comma that is neither in quotes nor hidden has no such state. -/
def scan (quote escape : Bool) : Text → Option (Bool × Bool)
  | [] => some (quote, escape)
  | c :: rest =>
    if escape then scan quote false rest
    else if c = '\\' then scan quote true rest
    else if c = '"' then scan (!quote) false rest
    else if c = ',' ∧ quote = false then none
    else scan quote false rest

def escapeQuotes (value : Text) : Text :=
  value.flatMap fun c => if c = '"' then ['\\', '"'] else [c]

namespace Token

variable (t : Token)

def head : Text :=
  t.key ++ match t.attr with
    | none => []
    | some attr => '{' :: attr ++ ['}']

def quoted : Text := '"' :: escapeQuotes t.value ++ ['"']

def render : Text := t.head ++ t.op.text ++ t.quoted

/-- The key is in upper case, the attribute has no brace, quote or operator, and the value does not
end with a backslash. -/
structure Plain : Prop where
  key : ∀ c ∈ t.key, c.isUpper = true
  attr : ∀ attr ∈ t.attr, ∀ c ∈ attr, c ∉ ['{', '}', '"', '=']
  backslash : t.value.getLast? ≠ some '\\'

/-- The token is one field: the commas outside of quotes stand behind a backslash, and the quotes
that do not are paired. The value has no operator that is tried before the token's own, and no quote
at its end. -/
structure Kept : Prop where
  closed : scan false false t.render = some (false, false)
  quote : t.value.getLast? ≠ some '"'
  operator : ∀ op ∈ Operator.all.takeWhile (· ≠ t.op), ¬op.text <:+: t.value

end Token

/-- The tokens as one line. -/
def renderLine (tokens : List Token) : Text := [','].intercalate (tokens.map Token.render)

/-! ### Fields -/

section

variable {u v r : Text} {q e : Bool} {t : Token}

private theorem map_prepend (fs : Option (Text × List Text)) :
    (fs.map (prepend v)).map (prepend u) = fs.map (prepend (u ++ v)) := by
  cases fs <;> simp [prepend]

private theorem escapeQuotes_quote (v : Text) :
    escapeQuotes ('"' :: v) = '\\' :: '"' :: escapeQuotes v := by
  simp [escapeQuotes]

private theorem escapeQuotes_cons (h : c ≠ '"') (v : Text) :
    escapeQuotes (c :: v) = c :: escapeQuotes v := by
  simp [escapeQuotes, h]

private theorem head_escapeQuotes (h : c ∈ (escapeQuotes v).head?) :
    c ≠ '"' ∧ (c ≠ '\\' → c ∈ v.head?) := by
  rcases v with - | ⟨d, v⟩
  · cases h
  by_cases hd : d = '"'
  · rw [hd, escapeQuotes_quote] at h
    cases h
    exact ⟨by decide, fun hne => absurd rfl hne⟩
  · rw [escapeQuotes_cons hd] at h
    cases h
    exact ⟨hd, fun _ => rfl⟩

private theorem scan_append (u r : Text) :
    scan q e (u ++ r) = (scan q e u).bind fun state => scan state.1 state.2 r := by
  induction u generalizing q e with
  | nil => rfl
  | cons c u ih =>
    simp only [cons_append, scan]
    split_ifs <;> first | exact ih | rfl

/-- A text without a bare comma stays in its field. -/
theorem fieldsOf_of_scan {q' e' : Bool} (h : scan q e u = some (q', e')) (r : Text) :
    fieldsOf q e (u ++ r) = (fieldsOf q' e' r).map (prepend u) := by
  induction u generalizing q e with
  | nil =>
    cases h
    exact (congrFun Option.map_id _).symm
  | cons c u ih =>
    simp only [scan] at h
    simp only [cons_append, fieldsOf]
    split_ifs at h ⊢ <;> rw [ih h, map_prepend] <;> rfl

/-- The first bare comma ends the field. -/
theorem fieldsOf_of_scan_none (h : scan q e u = none) {first : Text} {more : List Text}
    (hfields : fieldsOf q e (u ++ r) = some (first, more)) :
    ∃ rest, u = first ++ ',' :: rest := by
  have hmap : ∀ {q e : Bool} {u : Text} {c : Char},
      (∀ first more, fieldsOf q e (u ++ r) = some (first, more) →
        ∃ rest, u = first ++ ',' :: rest) →
      ∀ first more, (fieldsOf q e (u ++ r)).map (prepend [c]) = some (first, more) →
        ∃ rest, c :: u = first ++ ',' :: rest := by
    intro q e u c ih first more hfields
    obtain ⟨⟨first', more'⟩, hinner, hpair⟩ := Option.map_eq_some_iff.mp hfields
    obtain ⟨rfl, rfl⟩ := Prod.mk.inj hpair
    obtain ⟨rest, rfl⟩ := ih first' more' hinner
    exact ⟨rest, rfl⟩
  induction u generalizing q e first more with
  | nil => cases h
  | cons c u ih =>
    simp only [scan] at h
    simp only [cons_append, fieldsOf] at hfields
    split_ifs at h hfields with hescape hslash hquote hcomma
    · exact hmap (fun _ _ => ih h) _ _ hfields
    · exact hmap (fun _ _ => ih h) _ _ hfields
    · exact hmap (fun _ _ => ih h) _ _ hfields
    · obtain ⟨fields, -, hpair⟩ := Option.map_eq_some_iff.mp hfields
      obtain ⟨rfl, -⟩ := Prod.mk.inj hpair
      exact ⟨u, by rw [hcomma.1]; rfl⟩
    · exact hmap (fun _ _ => ih h) _ _ hfields

private theorem isUpper_ne {c d : Char} (h : c.isUpper = true) (hd : d.isUpper = false) :
    c ≠ d := by
  rintro rfl
  rw [h] at hd
  cases hd

private theorem mem_head (h : t.Plain) {c : Char} (hc : c ∈ t.head) : c ∉ ['"', '='] := by
  rw [Token.head] at hc
  rcases mem_append.mp hc with hc | hc
  · have hk := h.key c hc
    simp [isUpper_ne hk]
  · rcases ha : t.attr with - | attr <;> rw [ha] at hc
    · cases hc
    · have hat := h.attr attr ha
      rcases mem_append.mp hc with hc | hc
      · rcases mem_cons.mp hc with rfl | hc
        · decide
        · have := hat c hc
          simp_all
      · rw [mem_singleton.mp hc]
        decide

/-! ### Tokens -/

private theorem trim_of_ends {text : Text} (hh : ∀ c ∈ text.head?, isWhitespace c = false)
    (hl : ∀ c ∈ text.getLast?, isWhitespace c = false) : trim text = text :=
  trim_eq_self_iff.mpr ⟨trimStart_eq_self_iff.mpr hh, trimEnd_eq_self_iff.mpr hl⟩

private theorem isUpper_bounds {c : Char} (h : c.isUpper = true) : 65 ≤ c.toNat ∧ c.toNat ≤ 90 := by
  simpa [Char.isUpper, UInt32.le_iff_toNat_le] using h

private theorem toUpper_of_isUpper {c : Char} (h : c.isUpper = true) : c.toUpper = c := by
  have hb := isUpper_bounds h
  rw [Char.toUpper, dif_neg]
  rintro ⟨hlow, -⟩
  have hlow : 97 ≤ c.toNat := UInt32.le_iff_toNat_le.mp hlow
  omega

private theorem head_ends (h : t.Plain) (hc : c ∈ t.head.head? ∨ c ∈ t.head.getLast?) :
    c.isUpper = true ∨ c = '{' ∨ c = '}' := by
  rw [Token.head] at hc
  rcases ha : t.attr with - | attr
  · simp only [ha, append_nil] at hc
    exact .inl (h.key c (hc.elim mem_of_mem_head? mem_of_mem_getLast?))
  · simp only [ha] at hc
    rcases hc with hc | hc
    · rcases hk : t.key with - | ⟨d, key⟩
      · rw [hk] at hc
        exact .inr (.inl (Option.some.inj hc).symm)
      · rw [hk] at hc
        exact .inl (h.key c (by rw [hk, ← Option.some.inj hc]; exact mem_cons_self))
    · have hl : (t.key ++ ('{' :: attr ++ ['}'])).getLast? = some '}' := by
        rw [← append_assoc, getLast?_concat]
      exact .inr (.inr (Option.some.inj (hc.symm.trans hl)))

private theorem not_isWhitespace_end (h : c.isUpper = true ∨ c = '{' ∨ c = '}') :
    isWhitespace c = false := by
  rcases h with h | rfl | rfl
  · have hb := isUpper_bounds h
    simp only [isWhitespace, Bool.or_eq_false_iff, Bool.and_eq_false_iff, decide_eq_false_iff_not,
      beq_eq_false_iff_ne]
    omega
  · decide
  · decide

private theorem trim_head (h : t.Plain) : trim t.head = t.head :=
  trim_of_ends (fun _ hc => not_isWhitespace_end (head_ends h (.inl hc)))
    fun _ hc => not_isWhitespace_end (head_ends h (.inr hc))

private theorem getLast_quoted (u : Text) : (u ++ t.quoted).getLast? = some '"' := by
  rw [Token.quoted, ← append_assoc, getLast?_concat]

private theorem trim_render (h : t.Plain) : trim t.render = t.render := by
  refine trim_of_ends (fun c hc => ?_) fun c hc => ?_
  · rcases hh : t.head with - | ⟨d, m⟩
    · have hop : ∀ op : Operator, ∀ c ∈ (op.text ++ t.quoted).head?, isWhitespace c = false := by
        intro op c hc
        cases op <;> cases hc <;> decide
      rw [Token.render, hh] at hc
      exact hop _ c hc
    · rw [Token.render, hh] at hc
      exact not_isWhitespace_end (head_ends h (.inl (by rw [hh]; exact hc)))
  · rw [Token.render, getLast_quoted] at hc
    cases hc
    decide

-- What comes before the operator has no `=`, and does not end as a longer operator begins.
private theorem splitOnceAt_head (h : t.Plain) (hx : x ∈ ['=', '!', ':', '+']) :
    splitOnceAt [x, '='] (t.head ++ r) =
      (splitOnceAt [x, '='] r).map fun p => (t.head ++ p.1, p.2) := by
  have hl : t.head.getLast? ≠ some x := by
    intro hl
    rcases head_ends h (.inr hl) with hu | rfl | rfl
    · fin_cases hx <;> cases hu
    · exact absurd hx (by decide)
    · exact absurd hx (by decide)
  have he : ∀ c ∈ t.head, c ≠ '=' := fun c hc he => mem_head h hc (by simp [he])
  generalize t.head = u at hl he
  induction u with
  | nil => simp
  | cons c u ih =>
    have hu : ∀ c ∈ u, c ≠ '=' := fun c hc => he c (mem_cons_of_mem _ hc)
    have hn : ¬[x, '='] <+: c :: (u ++ r) := by
      rw [cons_prefix_cons]
      rintro ⟨rfl, hp⟩
      rcases u with - | ⟨d, u⟩
      · exact hl rfl
      · rw [cons_append, cons_prefix_cons] at hp
        exact hu d mem_cons_self hp.1.symm
    have hl' : u.getLast? ≠ some x := by
      rcases u with - | ⟨d, u⟩
      · simp
      · simpa using hl
    rw [cons_append, splitOnceAt, if_neg hn, ih hl' hu, Option.map_map]
    rfl

private theorem splitOnceAt_quoted (hx : x ∈ ['=', '!', ':', '+']) (h : ¬[x, '='] <:+: v) :
    splitOnceAt [x, '='] (escapeQuotes v ++ ['"']) = none := by
  induction v with
  | nil => fin_cases hx <;> rfl
  | cons c v ih =>
    have ih := ih fun hi => h (hi.trans (infix_cons infix_rfl))
    by_cases hq : c = '"'
    · rw [hq, escapeQuotes_quote]
      exact (splitOnceAt_append (u := ['\\', '"']) (by simp) (by fin_cases hx <;> simp)
        (escapeQuotes v ++ ['"'])).trans (by rw [ih]; rfl)
    · have hn : ¬[x, '='] <+: c :: (escapeQuotes v ++ ['"']) := by
        rw [cons_prefix_cons]
        rintro ⟨rfl, hp⟩
        rcases he : escapeQuotes v with - | ⟨d, l⟩
        · rw [he] at hp
          exact absurd hp (by decide)
        · rw [he, cons_append, cons_prefix_cons] at hp
          have hv := (head_escapeQuotes (v := v) (c := '=') (by rw [he, hp.1]; rfl)).2 (by decide)
          obtain ⟨v, rfl⟩ : ∃ v', v = '=' :: v' := by cases v <;> simp_all
          exact h (prefix_append [x, '='] v).isInfix
      rw [escapeQuotes_cons hq, cons_append, splitOnceAt, if_neg hn, ih]
      rfl

private theorem splitOnceAt_earlier (h : t.Plain)
    (hoperator : ∀ op ∈ Operator.all.takeWhile (· ≠ t.op), ¬op.text <:+: t.value)
    (hop : op ∈ Operator.all.takeWhile (· ≠ t.op)) : splitOnceAt op.text t.render = none := by
  obtain ⟨x, hx, htx, hp⟩ : ∃ x ∈ ['=', '!', ':', '+'], op.text = [x, '='] ∧
      ∀ c ∈ t.op.text.dropLast, some x ≠ some c := by
    revert hop
    cases t.op <;> cases op <;> simp [Operator.all, Operator.text]
  have hv := splitOnceAt_quoted hx (htx ▸ hoperator op hop)
  have hq : x ≠ '"' := by rintro rfl; exact absurd hx (by decide)
  have ht : t.op.text ++ t.quoted =
      t.op.text.dropLast ++ '=' :: '"' :: (escapeQuotes t.value ++ ['"']) := by
    cases t.op <;> rfl
  rw [htx, Token.render, append_assoc, splitOnceAt_head h hx, ht, splitOnceAt_append (by simp) hp]
  simp [splitOnceAt, hv, hq]

private theorem splitOnceAt_own (h : t.Plain) (r : Text) :
    splitOnceAt t.op.text (t.head ++ t.op.text ++ r) = some (t.head, r) := by
  have hc : t.op.text = ['='] ∨ ∃ x ∈ ['=', '!', ':', '+'], t.op.text = [x, '='] := by
    cases t.op <;> simp [Operator.text]
  rw [append_assoc]
  rcases hc with htx | ⟨x, hx, htx⟩
  · rw [htx, splitOnceAt_append (by simp), splitOnceAt_self (by simp)]
    · simp
    · rintro c hc he
      exact mem_head h hc (by simp [← Option.some.inj he])
  · rw [htx, splitOnceAt_head h hx, splitOnceAt_self (by simp)]
    simp

private theorem replaceFrom_escapeQuotes (v : Text) :
    replaceFrom ['\\', '"'] ['"'] 0 (escapeQuotes v) = v := by
  induction v with
  | nil => rfl
  | cons c v ih =>
    by_cases hq : c = '"'
    · rw [hq, escapeQuotes_quote]
      exact (replaceFrom_self (by simp) (escapeQuotes v)).trans (by rw [ih]; rfl)
    · have hn : ¬['\\', '"'] <+: c :: escapeQuotes v := by
        rw [cons_prefix_cons]
        rintro ⟨-, m, hp⟩
        exact (head_escapeQuotes (c := '"') (by rw [← hp]; rfl)).1 rfl
      rw [escapeQuotes_cons hq, replaceFrom, if_neg hn, ih]

private theorem trim_quoted (t : Token) : trim t.quoted = t.quoted :=
  trim_of_ends (by rintro c ⟨⟩; rfl) (by rw [← nil_append t.quoted, getLast_quoted]; simp; rfl)

-- The quotes around a text are stripped, and with them those at its end.
private theorem trimQuotes_escaped {d : Char} (hd : d ≠ '"') (v : Text) (n : Nat) :
    trimQuotes ('"' :: (escapeQuotes v ++ d :: replicate n '"')) = escapeQuotes v ++ [d] := by
  have hstart : (escapeQuotes v ++ d :: replicate n '"').dropWhile (· == '"') =
      escapeQuotes v ++ d :: replicate n '"' := by
    rcases hv : escapeQuotes v with - | ⟨c, text⟩
    · rw [nil_append, dropWhile_cons_of_neg (by simpa using hd)]
    · have hc := (head_escapeQuotes (v := v) (c := c) (by rw [hv]; rfl)).1
      rw [cons_append, dropWhile_cons_of_neg (by simpa using hc)]
  have hend : ∀ n, (escapeQuotes v ++ d :: replicate n '"').rdropWhile (· == '"') =
      escapeQuotes v ++ [d] := by
    intro n
    induction n with
    | zero => exact rdropWhile_concat_neg _ _ _ (by simpa using hd)
    | succ n ih =>
      rw [replicate_succ', ← cons_append, ← append_assoc, rdropWhile_concat_pos _ _ _ rfl, ih]
  rw [trimQuotes, dropWhile_cons_of_pos rfl, hstart, hend]

private theorem escapeQuotes_append (v v' : Text) :
    escapeQuotes (v ++ v') = escapeQuotes v ++ escapeQuotes v' := flatMap_append

/-- A value without a quote at its end is read back. -/
theorem value_quoted (h : t.value.getLast? ≠ some '"') :
    replaceFrom ['\\', '"'] ['"'] 0 (trimQuotes (trim t.quoted)) = t.value := by
  have hquotes : trimQuotes t.quoted = escapeQuotes t.value := by
    rcases eq_nil_or_concat' t.value with hv | ⟨v, c, hv⟩
    · rw [Token.quoted, hv]
      rfl
    · have hc : c ≠ '"' := by simpa [hv] using h
      have hescape : escapeQuotes t.value = escapeQuotes v ++ [c] := by
        rw [hv, escapeQuotes_append, escapeQuotes_cons hc]
        rfl
      rw [Token.quoted, hescape]
      simpa using trimQuotes_escaped hc v 1
  rw [trim_quoted, hquotes, replaceFrom_escapeQuotes]

/-! ### Letters that are kept -/

private theorem count_dropWhile {p : Char → Bool} {c : Char} (hc : p c = false) (text : Text) :
    (text.dropWhile p).count c = text.count c := by
  induction text with
  | nil => rfl
  | cons d text ih =>
    by_cases hd : p d = true
    · have hne : d ≠ c := by
        rintro rfl
        rw [hc] at hd
        cases hd
      rw [dropWhile_cons_of_pos hd, ih, count_cons_of_ne hne]
    · rw [dropWhile_cons_of_neg hd]

private theorem count_rdropWhile {p : Char → Bool} {c : Char} (hc : p c = false) (text : Text) :
    (text.rdropWhile p).count c = text.count c := by
  rw [rdropWhile, count_reverse, count_dropWhile hc, count_reverse]

private theorem count_escapeQuotes {c : Char} (hc : c ≠ '\\') (v : Text) :
    (escapeQuotes v).count c = v.count c := by
  induction v with
  | nil => rfl
  | cons d v ih =>
    by_cases hd : d = '"'
    · rw [hd, escapeQuotes_quote, count_cons_of_ne hc.symm, count_cons, count_cons, ih]
    · rw [escapeQuotes_cons hd, count_cons, count_cons, ih]

/-- Taking the backslashes of quotes away keeps the other letters. -/
theorem count_replaceFrom {c : Char} (hc : c ≠ '\\') (text : Text) :
    (replaceFrom ['\\', '"'] ['"'] 0 text).count c = text.count c := by
  induction hn : text.length using Nat.strong_induction_on generalizing text with
  | h n ih =>
    subst hn
    cases text with
    | nil => rfl
    | cons d text =>
      by_cases hd : ['\\', '"'] <+: d :: text
      · obtain ⟨rest, hrest⟩ := hd
        rw [← hrest, replaceFrom_self (by simp), count_append, count_append,
          ih rest.length (by simp [← hrest]) rest rfl, count_cons_of_ne hc.symm]
      · rw [replaceFrom, if_neg hd, count_cons, count_cons, ih text.length (by simp) text rfl]

/-- A value has the commas of its text. -/
theorem count_comma_value (raw : Text) :
    (replaceFrom ['\\', '"'] ['"'] 0 (trimQuotes (trim raw))).count ',' = raw.count ',' := by
  rw [count_replaceFrom (by decide), trimQuotes, count_rdropWhile (by decide),
    count_dropWhile (by decide), trim, trimEnd, count_rdropWhile (by decide), trimStart,
    count_dropWhile (by decide)]

private theorem count_comma_quoted (t : Token) : t.quoted.count ',' = t.value.count ',' := by
  simp [Token.quoted, count_escapeQuotes]

def Token.commas (t : Token) : Nat := (t.attr.getD []).count ',' + t.value.count ','

private theorem count_comma_render (h : t.Plain) : t.render.count ',' = t.commas := by
  have hkey : t.key.count ',' = 0 :=
    count_eq_zero.mpr fun hmem => absurd (h.key _ hmem) (by decide)
  have hop : t.op.text.count ',' = 0 := by cases t.op <;> decide
  rw [Token.render, count_append, count_append, hop, count_comma_quoted, Token.commas, Token.head,
    count_append, hkey]
  cases t.attr <;> simp

private theorem splitOnceAt_ne_none {m text : Text} (hm : m ≠ []) (h : m <:+: text) :
    splitOnceAt m text ≠ none := by
  induction text with
  | nil => exact absurd (infix_nil.mp h) hm
  | cons c text ih =>
    rw [splitOnceAt]
    split
    · simp
    next hstarts => simpa using ih ((infix_cons_iff.mp h).resolve_left hstarts)

private theorem splitOnceAt_eq_some {m text before after : Text}
    (h : splitOnceAt m text = some (before, after)) : text = before ++ m ++ after := by
  induction text generalizing before with
  | nil => cases h
  | cons c text ih =>
    rw [splitOnceAt] at h
    split at h
    next hstarts =>
      obtain ⟨rest, hrest⟩ := hstarts
      cases h
      rw [← hrest]
      simp
    next =>
      obtain ⟨⟨before', after'⟩, hsplit, hpair⟩ := Option.map_eq_some_iff.mp h
      obtain ⟨rfl, rfl⟩ := Prod.mk.inj hpair
      rw [ih hsplit]
      rfl

private theorem takeWhile_all {l l' : List Operator} {op : Operator}
    (h : Operator.all = l ++ op :: l') :
    Operator.all.takeWhile (· ≠ op) = l := by
  have hnodup : (l ++ op :: l').Nodup := h ▸ (by decide)
  have hmem : ∀ x ∈ l, x ≠ op := by
    rintro x hx rfl
    exact (nodup_append.mp hnodup).2.2 x hx x mem_cons_self rfl
  rw [h, takeWhile_append_of_pos (by simpa using hmem)]
  simp

/-- What a token that is read from a field tells about the field. -/
theorem parseToken_eq_ok {field : Text} (h : parseToken field = .ok t) :
    ∃ rawKey rawValue, splitOnceAt t.op.text field = some (rawKey, rawValue) ∧
      (∀ op ∈ Operator.all.takeWhile (· ≠ t.op), splitOnceAt op.text field = none) ∧
      replaceFrom ['\\', '"'] ['"'] 0 (trimQuotes (trim rawValue)) = t.value ∧
      (t.attr.getD []).count ',' ≤ rawKey.count ',' := by
  unfold parseToken at h
  split at h
  · cases h
  next op rawKey rawValue hfound =>
    obtain ⟨l, op', l', hall, hop, hnone⟩ := findSome?_eq_some_iff.mp hfound
    obtain ⟨parts, hsplit, hpair⟩ := Option.map_eq_some_iff.mp hop
    obtain ⟨rfl, rfl⟩ := Prod.mk.inj hpair
    have hcount : (trim rawKey).count ',' = rawKey.count ',' := by
      rw [trim, trimEnd, count_rdropWhile (by decide), trimStart, count_dropWhile (by decide)]
    have hearlier : ∀ op ∈ Operator.all.takeWhile (· ≠ op'), splitOnceAt op.text field = none := by
      rw [takeWhile_all hall]
      exact fun op hop => Option.map_eq_none_iff.mp (hnone op hop)
    dsimp only at h
    split at h
    · cases h
      exact ⟨_, _, hsplit, hearlier, rfl, Nat.zero_le _⟩
    · split at h
      · cases h
      next inner after hclose =>
        split at h
        · cases h
        · cases h
          refine ⟨_, _, hsplit, hearlier, rfl, ?_⟩
          rw [← hcount, (rsplitOnce_eq_some.mp hclose).2, count_append]
          exact ((drop_sublist _ _).count_le _).trans (Nat.le_add_right _ _)

private theorem commas_le {field : Text} (h : parseToken field = .ok t) :
    t.commas ≤ field.count ',' := by
  obtain ⟨rawKey, rawValue, hsplit, -, hvalue, hattr⟩ := parseToken_eq_ok h
  rw [splitOnceAt_eq_some hsplit, count_append, count_append, Token.commas, ← hvalue,
    count_comma_value]
  omega

/-- A token is read from its text exactly where the value has no operator that is tried before its
own and no quote at its end. -/
theorem parseToken_render_iff (h : t.Plain) :
    parseToken t.render = .ok t ↔ t.value.getLast? ≠ some '"' ∧
      ∀ op ∈ Operator.all.takeWhile (· ≠ t.op), ¬op.text <:+: t.value := by
  have hown : splitOnceAt t.op.text t.render = some (t.head, t.quoted) :=
    splitOnceAt_own h t.quoted
  constructor
  · intro hparse
    obtain ⟨rawKey, rawValue, hsplit, hearlier, hvalue, -⟩ := parseToken_eq_ok hparse
    obtain ⟨rfl, rfl⟩ := Prod.mk.inj (Option.some.inj (hown.symm.trans hsplit))
    refine ⟨fun hquote => ?_, fun op hop hinside => ?_⟩
    · -- the quote that is stripped is missing
      obtain ⟨v, hv⟩ := getLast?_eq_some_iff.mp hquote
      have hquotes : trimQuotes t.quoted = escapeQuotes v ++ ['\\'] := by
        rw [Token.quoted, hv, escapeQuotes_append]
        simpa [escapeQuotes] using trimQuotes_escaped (d := '\\') (by decide) v 2
      have hcount := congrArg (count '"') hvalue
      rw [trim_quoted, hquotes, count_replaceFrom (by decide), count_append,
        count_escapeQuotes (by decide), hv, count_append] at hcount
      simp at hcount
    · refine splitOnceAt_ne_none (by cases op <;> simp [Operator.text]) ?_ (hearlier op hop)
      obtain ⟨u, v, hv⟩ := hinside
      have hop : escapeQuotes op.text = op.text := by cases op <;> rfl
      refine ⟨t.head ++ t.op.text ++ '"' :: escapeQuotes u, escapeQuotes v ++ ['"'], ?_⟩
      rw [Token.render, Token.quoted, ← hv, escapeQuotes_append, escapeQuotes_append, hop]
      simp
  · rintro ⟨hquote, hoperator⟩
    have hfound : Operator.all.findSome?
        (fun op => (splitOnceAt op.text t.render).map fun ps => (op, ps)) =
        some (t.op, t.head, t.quoted) := by
      refine findSome?_eq_some_iff.mpr ⟨Operator.all.takeWhile (· ≠ t.op), t.op,
        (Operator.all.dropWhile (· ≠ t.op)).tail, ?_, ?_, ?_⟩
      · cases t.op <;> rfl
      · rw [hown]
        rfl
      · intro op hop
        rw [splitOnceAt_earlier h hoperator hop]
        rfl
    have hkey : t.key.map Char.toUpper = t.key :=
      (map_congr_left fun c hc => toUpper_of_isUpper (h.key c hc)).trans (map_id _)
    have hbrace : '{' ∉ t.key := fun hmem => absurd (h.key _ hmem) (by decide)
    rw [parseToken, hfound]
    simp only [trim_head h, value_quoted hquote]
    obtain ⟨key, attr, op, value⟩ := t
    cases attr with
    | none => simp only [Token.head, append_nil, splitOnce_eq_none.mpr hbrace, hkey]
    | some attr =>
      have hopen : splitOnce '{' (key ++ ('{' :: attr ++ ['}'])) = some (key, attr ++ ['}']) :=
        splitOnce_eq_some.mpr ⟨hbrace, by simp⟩
      have hclose : rsplitOnce '}' (key ++ ('{' :: attr ++ ['}'])) =
          some (key ++ '{' :: attr, []) := rsplitOnce_eq_some.mpr ⟨by simp, by simp⟩
      have htrim : trim key = key := trim_eq_self_of_forall fun c hc =>
        not_isWhitespace_end (.inl (h.key c hc))
      simp only [Token.head, hopen, hclose, htrim, hkey]
      simp

/-- A field that goes on behind a token is not read as the token. -/
theorem parseToken_longer (h : t.Plain) (r : Text) :
    parseToken (trim (t.render ++ ',' :: r)) ≠ .ok t := by
  intro hparse
  have htrim : trim (t.render ++ ',' :: r) = t.render ++ ',' :: trimEnd r := by
    have hstart : trimStart (t.render ++ ',' :: r) = t.render ++ ',' :: r := by
      refine trimStart_eq_self_iff.mpr fun c hc => ?_
      have hrender := (trimStart_eq_self_iff.mp (trim_eq_self_iff.mp (trim_render h)).1) c
      rcases ht : t.render with - | ⟨d, text⟩
      · simp [Token.render, Token.quoted] at ht
      · rw [ht] at hc hrender
        exact hrender hc
    rw [trim, hstart, trimEnd_append_cons (by decide)]
  obtain ⟨rawKey, rawValue, hsplit, -, hvalue, -⟩ := parseToken_eq_ok hparse
  rw [htrim, Token.render, append_assoc, splitOnceAt_own h] at hsplit
  obtain ⟨rfl, rfl⟩ := Prod.mk.inj (Option.some.inj hsplit)
  have hcount := congrArg (count ',') hvalue
  rw [count_comma_value, count_append, count_comma_quoted] at hcount
  simp at hcount

/-! ### Lines -/

private theorem mapM_eq_ok {α β ε : Type} {f : α → Except ε β} {x : α} {xs : List α} {y : β}
    {ys : List β} : (x :: xs).mapM f = .ok (y :: ys) ↔ f x = .ok y ∧ xs.mapM f = .ok ys := by
  rw [mapM_cons]
  cases hx : f x with
  | error _ => simp [bind, Except.bind]
  | ok _ => cases hxs : xs.mapM f <;> simp [bind, Except.bind, pure, Except.pure]

-- The closing quote leaves no letter hidden.
private theorem escape_eq_false {q' e' : Bool} (h : scan false false t.render = some (q', e')) :
    e' = false := by
  have hrender : t.render = (t.head ++ t.op.text ++ '"' :: escapeQuotes t.value) ++ ['"'] := by
    simp [Token.render, Token.quoted]
  rw [hrender, scan_append] at h
  obtain ⟨⟨q, e⟩, -, h⟩ := Option.bind_eq_some_iff.mp h
  cases e <;> simp_all [scan]

/-- A field that begins with a token's text is read as the token only where it is that text. -/
theorem scan_of_first (h : t.Plain) {r first : Text} {more : List Text}
    (hr : r = [] ∨ ∃ r', r = ',' :: r')
    (hfields : fieldsOf false false (t.render ++ r) = some (first, more))
    (hparse : parseToken (trim first) = .ok t) :
    scan false false t.render = some (false, false) := by
  rcases hscan : scan false false t.render with - | ⟨quote, escape⟩
  · obtain ⟨rest, hrest⟩ := fieldsOf_of_scan_none hscan hfields
    have hle := commas_le hparse
    have hlt := congrArg (count ',') hrest
    rw [count_comma_render h, count_append, count_cons_self] at hlt
    rw [trim, trimEnd, count_rdropWhile (by decide), trimStart, count_dropWhile (by decide)] at hle
    omega
  · obtain rfl := escape_eq_false hscan
    cases quote with
    | false => rfl
    | true =>
      rw [fieldsOf_of_scan hscan] at hfields
      rcases hr with rfl | ⟨r', rfl⟩
      · simp [fieldsOf] at hfields
      · simp only [fieldsOf, Bool.false_eq_true, if_false, Char.reduceEq, and_false,
          Bool.true_eq_false, map_prepend] at hfields
        obtain ⟨⟨first', more'⟩, -, hpair⟩ := Option.map_eq_some_iff.mp hfields
        obtain ⟨rfl, -⟩ := Prod.mk.inj hpair
        refine absurd hparse ?_
        simpa using parseToken_longer h first'

private theorem kept_iff (h : t.Plain) :
    t.Kept ↔ scan false false t.render = some (false, false) ∧ parseToken t.render = .ok t := by
  rw [parseToken_render_iff h]
  exact ⟨fun hkept => ⟨hkept.1, hkept.2, hkept.3⟩, fun hkept => ⟨hkept.1, hkept.2.1, hkept.2.2⟩⟩

private theorem parseRuleLine_last (h : t.Plain) : parseRuleLine t.render = .ok [t] ↔ t.Kept := by
  rw [kept_iff h, parseRuleLine]
  constructor
  · intro hparse
    split at hparse
    · cases hparse
    next first more hfields =>
      obtain ⟨hfirst, -⟩ := mapM_eq_ok.mp hparse
      have hscan := scan_of_first h (.inl rfl) (by rwa [append_nil]) hfirst
      rw [← append_nil t.render, fieldsOf_of_scan hscan] at hfields
      simp only [fieldsOf, Bool.false_eq_true, if_false, Option.map_some, prepend, append_nil,
        Option.some.injEq, Prod.mk.injEq] at hfields
      rw [← hfields.1, trim_render h] at hfirst
      exact ⟨hscan, hfirst⟩
  · rintro ⟨hscan, hparse⟩
    have hfields := fieldsOf_of_scan hscan []
    simp only [append_nil, fieldsOf, Bool.false_eq_true, if_false, Option.map_some, prepend]
      at hfields
    rw [hfields]
    exact mapM_eq_ok.mpr ⟨by rw [trim_render h, hparse], rfl⟩

private theorem parseRuleLine_cons (h : t.Plain) (r : Text) (ts : List Token) :
    parseRuleLine (t.render ++ ',' :: r) = .ok (t :: ts) ↔
      t.Kept ∧ parseRuleLine r = .ok ts := by
  have hcut : scan false false t.render = some (false, false) →
      fieldsOf false false (t.render ++ ',' :: r) =
        (fieldsOf false false r).map fun fields => (t.render, fields.1 :: fields.2) := by
    intro hscan
    rw [fieldsOf_of_scan hscan]
    simp only [fieldsOf, Bool.false_eq_true, if_false, Char.reduceEq, and_self, if_true,
      Option.map_map]
    cases fieldsOf false false r <;> simp [prepend]
  rw [kept_iff h, parseRuleLine, parseRuleLine]
  constructor
  · intro hparse
    split at hparse
    · cases hparse
    next first more hfields =>
      obtain ⟨hfirst, hmore⟩ := mapM_eq_ok.mp hparse
      have hscan := scan_of_first h (.inr ⟨r, rfl⟩) hfields hfirst
      rw [hcut hscan] at hfields
      obtain ⟨fields, hrest, hpair⟩ := Option.map_eq_some_iff.mp hfields
      obtain ⟨rfl, rfl⟩ := Prod.mk.inj hpair
      rw [trim_render h] at hfirst
      rw [hrest]
      exact ⟨⟨hscan, hfirst⟩, hmore⟩
  · rintro ⟨⟨hscan, hparse⟩, hrest⟩
    rw [hcut hscan]
    split at hrest
    · cases hrest
    next first more hfields =>
      rw [hfields]
      exact mapM_eq_ok.mpr ⟨by rw [trim_render h, hparse], hrest⟩

/-- A line of tokens is read back exactly where every token is one field whose value has no operator
that is tried before the token's own and no quote at its end. -/
theorem rule_line_roundtrip (ts : List Token) (hne : ts ≠ []) (h : ∀ t ∈ ts, t.Plain) :
    parseRuleLine (renderLine ts) = .ok ts ↔ ∀ t ∈ ts, t.Kept := by
  obtain ⟨t, ts, rfl⟩ := exists_cons_of_ne_nil hne
  induction ts generalizing t with
  | nil => simpa [renderLine] using parseRuleLine_last (h t mem_cons_self)
  | cons t' ts ih =>
    obtain ⟨ht, hts⟩ := forall_mem_cons.mp h
    have hline : renderLine (t :: t' :: ts) = t.render ++ ',' :: renderLine (t' :: ts) := by
      simp [renderLine]
    rw [hline, parseRuleLine_cons ht, ih t' (by simp) hts]
    exact forall_mem_cons.symm

/-- Commas behind a backslash in an attribute and inside of a value, and paired bare quotes. -/
def someTokens : List Token :=
  [⟨['A'], some "a\\,b".toList, .matches, "\",\\\"y\\\"z".toList⟩,
    ⟨['B'], none, .assign, "1,2".toList⟩]

theorem rule_line_roundtrip_commas :
    parseRuleLine (renderLine someTokens) = .ok someTokens ∧ ∀ t ∈ someTokens, t.Kept := by
  have hplain : ∀ t ∈ someTokens, t.Plain := by
    intro t ht
    rcases mem_cons.mp ht with rfl | ht
    · exact ⟨forall_mem_singleton.mpr rfl, by simp, by decide⟩
    · obtain rfl := mem_singleton.mp ht
      exact ⟨forall_mem_singleton.mpr rfl, by simp, by decide⟩
  have hparse : parseRuleLine (renderLine someTokens) = .ok someTokens := by decide
  exact ⟨hparse, (rule_line_roundtrip someTokens (by decide) hplain).mp hparse⟩

/-- The operator is found in the value. -/
theorem operator_read_from_value :
    parseRuleLine (renderLine [⟨"ENV".toList, some ['A'], .assign, "x==y".toList⟩]) =
      .ok [⟨"ENV".toList, some ['A'], .matches, ['y']⟩] := by
  decide

end
end Rustd.Udev
