import Rustd.Udev.Persist

/-!
# Substitutions in udev rules

`src/udev.rs`: `expand` fills data of the device into the text of a rule, one substitution after the
other, each over the whole text. Where no letter that is not part of a substitution of the rule, and
no letter of the data, begins a substitution that is still to be made, this is one pass over the
text. The loops take a bound on the number of their turns, for they need not end.
-/

namespace Rustd.Udev

open Base List

abbrev Text := List Char

/-- `Device` with the fields that only the rules use. -/
structure RuleDevice extends Device where
  syspath : Text
  owner : Option Text
  group : Option Text

/-- What the rules see and run outside of the daemon. A builtin changes properties only. -/
structure Host (W : Type) where
  readAttr : W → Text → Text → Option Text
  parentAttr : W → Text → Text → Option Text
  testPathMatches : W → RuleDevice → Text → Bool
  runBuiltin : W → RuleDevice → Text → List (Text × Text) × W
  commandOutput : W → RuleDevice → Text → Option Text × W

/-- `Device::property` of `src/udev.rs:129`. -/
def RuleDevice.property (d : RuleDevice) (key : Text) : Text :=
  if key = "ACTION".toList then d.action
  else if key = "KERNEL".toList then d.kernel
  else if key = "SUBSYSTEM".toList then d.subsystem
  else (d.properties.lookup key).getD []

/-! ### Texts -/

section

variable (m : Text)

/-- `str::split_once` at a text that is not empty. -/
def splitOnceAt : Text → Option (Text × Text)
  | [] => none
  | c :: rest =>
    if m <+: c :: rest then some ([], (c :: rest).drop m.length)
    else (splitOnceAt rest).map fun parts => (c :: parts.1, parts.2)

/-- `str::replace` of a text that is not empty; the number counts the letters of an occurrence that
are still to be passed. -/
def replaceFrom (value : Text) : Nat → Text → Text
  | _, [] => []
  | skip + 1, _ :: rest => replaceFrom value skip rest
  | 0, c :: rest =>
    if m <+: c :: rest then value ++ replaceFrom value (m.length - 1) rest
    else c :: replaceFrom value 0 rest

variable {m} {value text u : Text}

theorem splitOnceAt_self (h : m ≠ []) (r : Text) : splitOnceAt m (m ++ r) = some ([], r) := by
  obtain ⟨c, mo, rfl⟩ := exists_cons_of_ne_nil h
  have hp : c :: mo <+: c :: (mo ++ r) := prefix_append (c :: mo) r
  simp [splitOnceAt, hp]

private theorem replaceFrom_drop (r : Text) :
    replaceFrom m value u.length (u ++ r) = replaceFrom m value 0 r := by
  induction u with
  | nil => rfl
  | cons c u ih => simpa [replaceFrom] using ih

theorem replaceFrom_self (h : m ≠ []) (r : Text) :
    replaceFrom m value 0 (m ++ r) = value ++ replaceFrom m value 0 r := by
  obtain ⟨c, mo, rfl⟩ := exists_cons_of_ne_nil h
  have hp : c :: mo <+: c :: (mo ++ r) := prefix_append (c :: mo) r
  simp [replaceFrom, hp, replaceFrom_drop]

-- A letter with which the marker does not begin is passed.
private theorem not_isPrefix_cons (h : m ≠ []) (hc : m.head? ≠ some c) : ¬m <+: c :: r := by
  obtain ⟨x, mo, rfl⟩ := exists_cons_of_ne_nil h
  rw [cons_prefix_cons]
  rintro ⟨rfl, -⟩
  exact hc rfl

/-- The marker begins at no letter of the first text. -/
def NoneIn (m : Text) : Text → Text → Prop
  | [], _ => True
  | c :: u, r => ¬m <+: c :: (u ++ r) ∧ NoneIn m u r

theorem NoneIn.append (h : NoneIn m u (v ++ r)) (h' : NoneIn m v r) : NoneIn m (u ++ v) r := by
  induction u with
  | nil => exact h'
  | cons c u ih => exact ⟨by simpa using h.1, ih h.2⟩

private theorem noneIn_of_head (h : m ≠ []) (hu : ∀ c ∈ u, m.head? ≠ some c) (r : Text) :
    NoneIn m u r := by
  induction u with
  | nil => trivial
  | cons c u ih =>
    obtain ⟨hc, hu⟩ := forall_mem_cons.mp hu
    exact ⟨not_isPrefix_cons h hc, ih hu⟩

private theorem splitOnceAt_of_noneIn (h : NoneIn m u r) :
    splitOnceAt m (u ++ r) = (splitOnceAt m r).map fun pa => (u ++ pa.1, pa.2) := by
  induction u with
  | nil => simp
  | cons c u ih =>
    rw [cons_append, splitOnceAt, if_neg h.1, ih h.2]
    cases splitOnceAt m r <;> simp

theorem splitOnceAt_append (h : m ≠ []) (hu : ∀ c ∈ u, m.head? ≠ some c) (r : Text) :
    splitOnceAt m (u ++ r) = (splitOnceAt m r).map fun pa => (u ++ pa.1, pa.2) :=
  splitOnceAt_of_noneIn (noneIn_of_head h hu r)

private theorem replaceFrom_of_noneIn (h : NoneIn m u r) :
    replaceFrom m value 0 (u ++ r) = u ++ replaceFrom m value 0 r := by
  induction u with
  | nil => rfl
  | cons c u ih => rw [cons_append, replaceFrom, if_neg h.1, ih h.2, cons_append]

end

/-! ### Substitutions -/

/-- The substitutions in the order in which `expand` makes them; the last three have a name in
braces. -/
inductive Sub where
  | devnode | kernel | number | devpath | name | sys | root
  | bigN | k | p | n | bigS | r | bigM | m
  | env | attr | bigE
  deriving DecidableEq

namespace Sub

def all : List Sub :=
  [devnode, kernel, number, devpath, name, sys, root, bigN, k, p, n, bigS, r, bigM, m, env, attr,
    bigE]

def text : Sub → Text
  | devnode => "$devnode".toList
  | kernel => "$kernel".toList
  | number => "$number".toList
  | devpath => "$devpath".toList
  | name => "$name".toList
  | sys => "$sys".toList
  | root => "$root".toList
  | bigN => "%N".toList
  | k => "%k".toList
  | p => "%p".toList
  | n => "%n".toList
  | bigS => "%S".toList
  | r => "%r".toList
  | bigM => "%M".toList
  | m => "%m".toList
  | env => "$env\x7b".toList
  | attr => "$attr\x7b".toList
  | bigE => "%E\x7b".toList

def braced : Sub → Bool
  | env | attr | bigE => true
  | _ => false

end Sub

section

variable {W : Type} (host : Host W) (w : W) (d : RuleDevice)

/-- The device data that stand for a substitution. -/
def deviceData : Sub → Text → Text
  | .devnode, _ | .bigN, _ => (deviceNode d.toDevice).getD []
  | .kernel, _ | .k, _ => d.kernel
  | .number, _ | .n, _ => d.kernel.dropWhile fun c => !c.isDigit
  | .devpath, _ | .p, _ => d.devpath
  | .name, _ => trimDev ((deviceNode d.toDevice).getD [])
  | .sys, _ | .bigS, _ => "/sys".toList
  | .root, _ | .r, _ => "/dev".toList
  | .bigM, _ => d.property "MAJOR".toList
  | .m, _ => d.property "MINOR".toList
  | .env, key | .bigE, key => d.property key
  | .attr, key => (host.readAttr w d.syspath key).getD []

variable (data : Sub → Text → Text)

/-- A loop over the substitutions with a name. Each turn searches the text from its start. -/
def expandLoop (s : Sub) : Nat → Text → Option Text
  | 0, _ => none
  | k + 1, text =>
    match splitOnceAt s.text text with
    | none => some text
    | some (before, after) =>
      match splitOnce '}' after with
      | none => some text
      | some (key, rest) => expandLoop s k (before ++ data s key ++ rest)

def expandStage (k : Nat) (text : Text) (s : Sub) : Option Text :=
  if s.braced then expandLoop data s k text else some (replaceFrom s.text (data s []) 0 text)

/-- `expand` of `src/udev.rs:742`. -/
def expand (k : Nat) (value : Text) : Option Text :=
  Sub.all.foldlM (expandStage (deviceData host w d) k) value

end

/-! ### One pass -/

/-- A part of a rule's text: a letter, or a substitution with its name. -/
inductive Piece where
  | plain (c : Char)
  | sub (s : Sub) (key : Text)

def Inert (text : Text) : Prop := ∀ c ∈ text, c ≠ '$' ∧ c ≠ '%'

instance (text : Text) : Decidable (Inert text) := decidableBAll _ text

namespace Piece

def text : Piece → Text
  | plain c => [c]
  | sub s key => s.text ++ if s.braced then key ++ ['}'] else []

variable (data : Sub → Text → Text)

/-- What a piece stands for. -/
def value : Piece → Text
  | plain c => [c]
  | sub s key => data s key

/-- A name ends at the first brace and has no substitution in it, and a substitution without braces
has no name. -/
def Ok : Piece → Prop
  | plain _ => True
  | sub s key => '}' ∉ key ∧ (∀ s' ∈ Sub.all, ¬s'.text <:+: key) ∧ (s.braced = false → key = [])

instance (p : Piece) : Decidable p.Ok := by
  cases p <;> unfold Ok <;> infer_instance

/-- One substitution made. -/
def fill (s : Sub) : Piece → List Piece
  | plain c => [plain c]
  | sub s' key => if s' = s then (data s key).map plain else [sub s' key]

end Piece

section

variable {data : Sub → Text → Text} {s s' : Sub} {key r : Text} {p q : Piece}
  {ps done : List Piece}

def render (ps : List Piece) : Text := ps.flatMap Piece.text

private theorem render_cons (p : Piece) (ps : List Piece) :
    render (p :: ps) = p.text ++ render ps := rfl

private theorem render_append (ps qs : List Piece) : render (ps ++ qs) = render ps ++ render qs :=
  flatMap_append

@[simp] theorem render_plain (text : Text) : render (text.map .plain) = text := by
  induction text with
  | nil => rfl
  | cons c text ih => simpa [render, Piece.text] using ih

private theorem Sub.text_ne_nil (s : Sub) : s.text ≠ [] := by cases s <;> decide

private theorem Sub.head_text (s : Sub) : s.text.head? = some '$' ∨ s.text.head? = some '%' := by
  cases s <;> decide

private theorem Sub.inert_tail (s : Sub) : Inert s.text.tail := by cases s <;> decide

theorem Sub.text_not_isPrefix : ∀ s ∈ Sub.all, ∀ s' ∈ Sub.all, s.text <+: s'.text → s = s' := by
  decide

theorem Sub.mem_all (s : Sub) : s ∈ Sub.all := by cases s <;> decide

private theorem head_ne_of_inert {text : Text} (h : Inert text) :
    ∀ c ∈ text, s.text.head? ≠ some c := by
  intro c hc he
  rcases s.head_text with hs | hs <;> obtain rfl := Option.some.inj (hs.symm.trans he)
  · exact (h _ hc).1 rfl
  · exact (h _ hc).2 rfl

-- No substitution begins another one, so the one that a text begins with is determined.
private theorem eq_of_text_isPrefix (h : s.text <+: s'.text ++ r) : s = s' := by
  rcases prefix_or_prefix_of_prefix h (prefix_append _ _) with h | h
  · exact Sub.text_not_isPrefix s s.mem_all s' s'.mem_all h
  · exact (Sub.text_not_isPrefix s' s'.mem_all s s.mem_all h).symm

/-- No letter outside of the substitutions begins the text of this one. -/
def Clean (s : Sub) : List Piece → Prop
  | [] => True
  | .plain c :: ps => ¬s.text <+: c :: render ps ∧ Clean s ps
  | .sub _ _ :: ps => Clean s ps

instance Clean.decidable (s : Sub) : (ps : List Piece) → Decidable (Clean s ps)
  | [] => isTrue trivial
  | .plain c :: ps =>
    have := Clean.decidable s ps
    inferInstanceAs (Decidable (¬s.text <+: c :: render ps ∧ Clean s ps))
  | .sub _ _ :: ps => Clean.decidable s ps

/-- When its turn comes, each of the substitutions is found at its own places only: the data that
are already filled in and the letters around them do not begin it. A loop also searches its own
data. -/
def SinglePass (data : Sub → Text → Text) : List Sub → List Piece → Prop
  | [], _ => True
  | s :: subs, ps =>
    Clean s (if s.braced then ps.flatMap (·.fill data s) else ps) ∧
      SinglePass data subs (ps.flatMap (·.fill data s))

instance SinglePass.decidable (data : Sub → Text → Text) :
    (subs : List Sub) → (ps : List Piece) → Decidable (SinglePass data subs ps)
  | [], _ => isTrue trivial
  | s :: subs, _ =>
    @instDecidableAnd _ _ (Clean.decidable s _) (SinglePass.decidable data subs _)

private theorem Clean.of_append {ps qs : List Piece} (h : Clean s (ps ++ qs)) : Clean s qs := by
  induction ps with
  | nil => exact h
  | cons p ps ih =>
    cases p with
    | plain c => exact ih h.2
    | sub s' key => exact ih h

/-- The letters of a substitution do not continue one that has begun before. -/
theorem isPrefix_render_fill {t : Text} (ht : Inert t) (h : t <+: render ps) (s : Sub) :
    t <+: render (ps.flatMap (·.fill data s)) := by
  induction ps generalizing t with
  | nil => exact h
  | cons p ps ih =>
    cases t with
    | nil => exact nil_prefix
    | cons x t =>
      obtain ⟨hx, ht⟩ := forall_mem_cons.mp ht
      cases p with
      | plain c =>
        obtain ⟨rfl, hrest⟩ := cons_prefix_cons.mp h
        exact cons_prefix_cons.mpr ⟨rfl, ih ht hrest⟩
      | sub s' key =>
        obtain ⟨c, u, hc⟩ := exists_cons_of_ne_nil s'.text_ne_nil
        have hhead : x = c := by
          rw [render_cons, Piece.text, hc] at h
          exact (cons_prefix_cons.mp h).1
        have htext := s'.head_text
        rw [hc, hhead.symm] at htext
        rcases htext with he | he
        · exact absurd (Option.some.inj he) hx.1
        · exact absurd (Option.some.inj he) hx.2

theorem Clean.of_fill {s' : Sub} (h : Clean s (ps.flatMap (·.fill data s'))) : Clean s ps := by
  induction ps with
  | nil => trivial
  | cons p ps ih =>
    cases p with
    | plain c =>
      refine ⟨fun hbegins => h.1 ?_, ih h.2⟩
      obtain ⟨x, t, hx⟩ := exists_cons_of_ne_nil s.text_ne_nil
      have ht : Inert t := by
        have := s.inert_tail
        rwa [hx] at this
      rw [hx] at hbegins ⊢
      obtain ⟨rfl, hrest⟩ := cons_prefix_cons.mp hbegins
      exact cons_prefix_cons.mpr ⟨rfl, isPrefix_render_fill ht hrest s'⟩
    | sub s₀ key => exact ih h.of_append

-- A marker has no closing brace, so that it ends before the one of a name or begins behind it.
private theorem noneIn_key (hkey : ∀ s' ∈ Sub.all, ¬s'.text <:+: key) (s : Sub) (r : Text) :
    NoneIn s.text key ('}' :: r) := by
  have hbrace : '}' ∉ s.text := by cases s <;> decide
  replace hkey := hkey s s.mem_all
  induction key with
  | nil => trivial
  | cons c key ih =>
    refine ⟨fun hbegins => ?_, ih fun hinside => hkey (hinside.trans (infix_cons infix_rfl))⟩
    rw [← cons_append] at hbegins
    rcases prefix_or_prefix_of_prefix hbegins (prefix_append (c :: key) ('}' :: r)) with h | h
    · exact hkey h.isInfix
    · obtain ⟨rest, hrest⟩ := h
      rw [← hrest, prefix_append_right_inj] at hbegins
      cases rest with
      | nil =>
        rw [append_nil] at hrest
        exact hkey (hrest ▸ infix_rfl)
      | cons x rest =>
        obtain ⟨rfl, -⟩ := cons_prefix_cons.mp hbegins
        exact hbrace (hrest ▸ mem_append_right _ mem_cons_self)

-- A piece that is not the substitution searched for has no place where this one begins.
private theorem noneIn_piece (h : p.Ok) (hp : ∀ key, p ≠ .sub s key)
    (hplain : ∀ c, p = .plain c → ¬s.text <+: c :: r) : NoneIn s.text p.text r := by
  cases p with
  | plain c => exact ⟨hplain c rfl, trivial⟩
  | sub s' key =>
    obtain ⟨c, u, hc⟩ := exists_cons_of_ne_nil s'.text_ne_nil
    have hu : ∀ x ∈ u, s.text.head? ≠ some x := by
      have := head_ne_of_inert (s := s) s'.inert_tail
      rwa [hc] at this
    have hfirst : ∀ r, NoneIn s.text s'.text r := by
      intro r
      rw [hc]
      refine ⟨fun hbegins => ?_, noneIn_of_head s.text_ne_nil hu r⟩
      rw [← cons_append, ← hc] at hbegins
      exact hp key (by rw [eq_of_text_isPrefix hbegins])
    have hend : NoneIn s.text ['}'] r :=
      noneIn_of_head s.text_ne_nil (forall_mem_singleton.mpr (by cases s <;> decide)) r
    rw [Piece.text]
    split
    · exact NoneIn.append (hfirst _) (NoneIn.append (noneIn_key h.2.1 s r) hend)
    · rw [append_nil]
      exact hfirst r

private theorem fill_of_ne (hp : ∀ key, p ≠ .sub s key) : p.fill data s = [p] := by
  cases p with
  | plain c => rfl
  | sub s' key =>
    have hne : s' ≠ s := fun he => hp key (by rw [he])
    simp [Piece.fill, hne]

private theorem fill_self (key : Text) :
    (Piece.sub s key).fill data s = (data s key).map .plain := by
  simp [Piece.fill]

theorem Clean.head (h : Clean s (p :: ps)) :
    (∀ c, p = .plain c → ¬s.text <+: c :: render ps) ∧ Clean s ps := by
  cases p with
  | plain c =>
    refine ⟨fun c' hc => ?_, h.2⟩
    obtain rfl := Piece.plain.inj hc
    exact h.1
  | sub s' key => exact ⟨by simp, h⟩

/-- A substitution without braces is made by one replacement. -/
theorem replaceFrom_render (hs : s.braced = false) (h : ∀ p ∈ ps, p.Ok) (hclean : Clean s ps) :
    replaceFrom s.text (data s []) 0 (render ps) = render (ps.flatMap (·.fill data s)) := by
  induction ps with
  | nil => rfl
  | cons p ps ih =>
    obtain ⟨hp, h⟩ := forall_mem_cons.mp h
    obtain ⟨hplain, hclean⟩ := hclean.head
    rw [flatMap_cons, render_append, ← ih h hclean, render_cons]
    by_cases hsub : ∀ key, p ≠ .sub s key
    · rw [replaceFrom_of_noneIn (noneIn_piece hp hsub hplain), fill_of_ne hsub]
      simp [render]
    · push Not at hsub
      obtain ⟨key, rfl⟩ := hsub
      rw [hp.2.2 hs, fill_self, render_plain]
      simpa [Piece.text, hs] using replaceFrom_self s.text_ne_nil (render ps)

/-- Pieces without the substitution searched for are passed. -/
theorem splitOnceAt_render (h : ∀ p ∈ done, p.Ok ∧ ∀ key, p ≠ .sub s key)
    (hclean : Clean s (done ++ ps)) :
    splitOnceAt s.text (render done ++ render ps) =
      (splitOnceAt s.text (render ps)).map fun pa => (render done ++ pa.1, pa.2) := by
  induction done with
  | nil => simp [render]
  | cons p done ih =>
    obtain ⟨hp, h⟩ := forall_mem_cons.mp h
    rw [cons_append] at hclean
    obtain ⟨hplain, hclean⟩ := hclean.head
    rw [render_append] at hplain
    rw [render_cons, append_assoc, splitOnceAt_of_noneIn (noneIn_piece hp.1 hp.2 hplain),
      ih h hclean, Option.map_map]
    simp [Function.comp_def]

private theorem flatMap_fill_done (h : ∀ p ∈ done, ∀ key, p ≠ .sub s key) :
    done.flatMap (·.fill data s) = done := by
  induction done with
  | nil => rfl
  | cons p done ih =>
    obtain ⟨hp, h⟩ := forall_mem_cons.mp h
    rw [flatMap_cons, fill_of_ne hp, ih h]
    rfl

/-- A substitution with braces is made by its loop, one turn for each occurrence. -/
theorem expandLoop_render (hs : s.braced = true) (h : ∀ p ∈ ps, p.Ok) (done : List Piece)
    (hd : ∀ p ∈ done, p.Ok ∧ ∀ key, p ≠ .sub s key)
    (hclean : Clean s (done ++ ps.flatMap (·.fill data s))) :
    ∃ t, ∀ k ≥ t, expandLoop data s k (render done ++ render ps) =
      some (render done ++ render (ps.flatMap (·.fill data s))) := by
  -- The pieces before the place of the search grow with every piece.
  induction ps generalizing done with
  | nil =>
    refine ⟨1, fun k hf => ?_⟩
    obtain ⟨n, rfl⟩ := Nat.exists_eq_add_of_le' hf
    have hnone : splitOnceAt s.text (render done ++ render []) = none := by
      rw [splitOnceAt_render hd (show Clean s (done ++ []) by simpa using hclean)]
      rfl
    rw [expandLoop, flatMap_nil, hnone]
  | cons p ps ih =>
    obtain ⟨hp, hps⟩ := forall_mem_cons.mp h
    by_cases hsub : ∀ key, p ≠ .sub s key
    · rw [flatMap_cons, fill_of_ne hsub, ← append_assoc] at hclean
      obtain ⟨t, ht⟩ := ih hps (done ++ [p]) (by simpa [or_imp, forall_and] using
        ⟨⟨fun q hq => (hd q hq).1, hp⟩, fun q hq => (hd q hq).2, hsub⟩) hclean
      refine ⟨t, fun k hf => ?_⟩
      rw [flatMap_cons, fill_of_ne hsub]
      simpa [render] using ht k hf
    · push Not at hsub
      obtain ⟨key, rfl⟩ := hsub
      have hfilled : Clean s ((done ++ .sub s key :: ps).flatMap (·.fill data s)) := by
        rwa [flatMap_append, flatMap_fill_done fun p hp => (hd p hp).2]
      rw [flatMap_cons, fill_self, ← append_assoc] at hclean
      obtain ⟨t, ht⟩ := ih hps (done ++ (data s key).map .plain) (by
        intro q hq
        rcases mem_append.mp hq with hq | hq
        · exact hd q hq
        · obtain ⟨c, hc, rfl⟩ := mem_map.mp hq
          exact ⟨trivial, by simp⟩) hclean
      refine ⟨t + 1, fun k hf => ?_⟩
      obtain ⟨n, rfl⟩ := Nat.exists_eq_add_of_le' (le_trans (Nat.le_add_left 1 t) hf)
      have hsplit : splitOnceAt s.text (render done ++ render (.sub s key :: ps)) =
          some (render done, key ++ '}' :: render ps) := by
        rw [splitOnceAt_render hd hfilled.of_fill, render_cons]
        simp [Piece.text, hs, splitOnceAt_self s.text_ne_nil]
      have hbrace : splitOnce '}' (key ++ '}' :: render ps) = some (key, render ps) :=
        splitOnce_eq_some.mpr ⟨hp.1, rfl⟩
      rw [expandLoop, hsplit]
      simp only [hbrace]
      rw [flatMap_cons, fill_self, render_append, render_plain]
      simpa [render_append] using ht n (by omega)

private theorem expandStage_render (h : ∀ p ∈ ps, p.Ok) (s : Sub)
    (hclean : Clean s (if s.braced then ps.flatMap (·.fill data s) else ps)) :
    ∃ n, ∀ k ≥ n, expandStage data k (render ps) s =
      some (render (ps.flatMap (·.fill data s))) := by
  rcases hs : s.braced with - | -
  · rw [if_neg (by simp [hs])] at hclean
    refine ⟨0, fun k _ => ?_⟩
    rw [expandStage, if_neg (by simp [hs]), replaceFrom_render hs h hclean]
  · rw [if_pos hs] at hclean
    obtain ⟨n, ht⟩ := expandLoop_render hs h [] (by simp) hclean
    refine ⟨n, fun k hf => ?_⟩
    rw [expandStage, if_pos hs]
    exact ht k hf

private theorem value_fill (ps : List Piece) (s : Sub) :
    (ps.flatMap (·.fill data s)).flatMap (·.value data) =
      ps.flatMap (·.value data) := by
  rw [flatMap_assoc]
  congr 1
  funext p
  cases p with
  | plain c => rfl
  | sub s' key =>
    rw [Piece.fill]
    split
    next he => simp [Piece.value, flatMap_map, he]
    next => simp [Piece.value]

/-- A made substitution leaves letters of the data behind and no place of its own. -/
theorem mem_fill (h : p.Ok) (hq : q ∈ p.fill data s) :
    q.Ok ∧ ∀ s' key, q = .sub s' key → p = q ∧ s' ≠ s := by
  cases p with
  | plain c =>
    obtain rfl := mem_singleton.mp hq
    exact ⟨h, by simp⟩
  | sub s₀ key =>
    rw [Piece.fill] at hq
    split at hq
    next he =>
      obtain ⟨c, hc, rfl⟩ := mem_map.mp hq
      exact ⟨trivial, by simp⟩
    next hne =>
      obtain rfl := mem_singleton.mp hq
      exact ⟨h, by rintro s' key ⟨⟩; exact ⟨rfl, hne⟩⟩

private theorem render_eq_value (h : ∀ p ∈ ps, ∀ s key, p ≠ .sub s key) :
    render ps = ps.flatMap (·.value data) := by
  refine flatMap_congr fun p hp => ?_
  cases p with
  | plain c => rfl
  | sub s key => exact absurd rfl (h _ hp s key)

/-- Stages that cover the substitutions of a text replace each of them by its data. -/
theorem foldlM_expandStage (subs : List Sub) (h : ∀ p ∈ ps, p.Ok) (hpass : SinglePass data subs ps)
    (hsubs : ∀ s key, Piece.sub s key ∈ ps → s ∈ subs) :
    ∃ n, ∀ k ≥ n, subs.foldlM (expandStage data k) (render ps) =
      some (ps.flatMap (·.value data)) := by
  induction subs generalizing ps with
  | nil =>
    refine ⟨0, fun k _ => ?_⟩
    rw [← render_eq_value fun p hp s key he => by simpa using hsubs s key (he ▸ hp)]
    rfl
  | cons s subs ih =>
    obtain ⟨n, hn⟩ := expandStage_render h s hpass.1
    obtain ⟨m, hm⟩ := @ih (ps.flatMap (·.fill data s))
      (by
        intro q hq
        obtain ⟨p, hp, hq⟩ := mem_flatMap.mp hq
        exact (mem_fill (h p hp) hq).1)
      hpass.2
      (by
        intro s' key hq
        obtain ⟨p, hp, hq⟩ := mem_flatMap.mp hq
        obtain ⟨rfl, hne⟩ := (mem_fill (h p hp) hq).2 s' key rfl
        exact (mem_cons.mp (hsubs s' key hp)).resolve_left hne)
    refine ⟨max n m, fun k hk => ?_⟩
    rw [foldlM_cons, hn k (le_trans (le_max_left ..) hk)]
    exact (hm k (le_trans (le_max_right ..) hk)).trans (by rw [value_fill])

end

/-- A host on which nothing can be read or run. -/
def idleHost : Host Unit where
  readAttr _ _ _ := none
  parentAttr _ _ _ := none
  testPathMatches _ _ _ := false
  runBuiltin _ _ _ := ([], ())
  commandOutput _ _ _ := (none, ())

def plainDevice (kernel devpath : String) (properties : List (Text × Text)) :
    RuleDevice where
  action := "add".toList
  devpath := devpath.toList
  kernel := kernel.toList
  subsystem := "block".toList
  properties := properties
  name := none
  symlinks := []
  tags := []
  mode := none
  syspath := "/sys".toList ++ devpath.toList
  owner := none
  group := none

/-- `p%n-$env{A} of 9%`. -/
def somePieces : List Piece :=
  [.plain 'p', .sub .n [], .plain '-', .sub .env ['A'], .plain '/', .plain '9', .plain '%']

end Rustd.Udev
