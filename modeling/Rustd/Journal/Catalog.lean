import Rustd.Base.Bytes

/-!
# The message catalog

The texts of `src/journal/catalog.rs`: how fields are filled in, and how an entry is laid over
another one for the same message.
-/

namespace Rustd.Journal.Catalog

open Base List

section

variable (lossy : List UInt8 → List Char) (fields fs : List Char → Option (List UInt8))

/-- Every byte of a character is pushed as a character of its own. -/
def pushBytes (c : Char) : List Char :=
  (String.utf8EncodeChar c).map fun b => Char.ofNat b.toNat

/-- What a marker is replaced by. -/
def fillIn (name : List Char) : List Char :=
  if name = [] then ['@'] else ((fields name).map lossy).getD name

/-- `expand_fields` of `src/journal/catalog.rs:290`. The loop of the source is over bytes; no byte
of another character is that of `@`, so the loop here is over characters. -/
def expandFields : List Char → List Char
  | [] => []
  | c :: text =>
    if c ≠ '@' then pushBytes c ++ expandFields text
    else if '@' ∈ text then
      fillIn lossy fields (text.takeWhile (· != '@')) ++
        expandFields ((text.dropWhile (· != '@')).drop 1)
    else '@' :: expandFields text
termination_by text => text.length
decreasing_by
  · simp
  · have hle := (dropWhile_sublist (· != '@') (l := text)).length_le
    simp only [length_drop, length_cons]
    omega
  · simp

/-- A stretch of a catalog text: plain characters or a marker. -/
inductive Part where
  | plain (chars : List Char)
  | marker (name : List Char)
  deriving DecidableEq

def Part.chars : Part → List Char
  | .plain chars => chars
  | .marker name => name

def Part.source : Part → List Char
  | .plain chars => chars
  | .marker name => '@' :: name ++ ['@']

/-- What the part is to become. -/
def Part.expansion : Part → List Char
  | .plain chars => chars
  | .marker name => fillIn lossy fields name

/-- The text consists of the parts, read from the left, and of a rest that starts with the last `@`
if that ends no marker. -/
structure Divides (text : List Char) (parts : List Part) (rest : List Char) : Prop where
  text_eq : text = parts.flatMap Part.source ++ rest
  parts_closed : ∀ part ∈ parts, '@' ∉ part.chars
  rest_open : rest = [] ∨ ∃ chars, rest = '@' :: chars ∧ '@' ∉ chars

private theorem exists_divides (text : List Char) : ∃ parts rest, Divides text parts rest := by
  induction hln : text.length using Nat.strongRecOn generalizing text with
  | ind n ih =>
  subst hln
  rcases split_cases (x := '@') text with ⟨hnn, -, -⟩ | ⟨after, hnn, hsl, -⟩
  · exact ⟨[.plain text], [], by simp [Part.source], by simpa [Part.chars] using hnn, .inl rfl⟩
  generalize text.takeWhile (· != '@') = before at hnn hsl
  subst hsl
  rcases split_cases (x := '@') after with ⟨hon, -, -⟩ | ⟨later, hname, hsl, -⟩
  · exact ⟨[.plain before], '@' :: after, by simp [Part.source], by simpa [Part.chars] using hnn,
      .inr ⟨after, rfl, hon⟩⟩
  generalize after.takeWhile (· != '@') = u at hname hsl
  subst hsl
  obtain ⟨parts, rest, h⟩ := ih later.length (by simp; omega) later rfl
  refine ⟨.plain before :: .marker u :: parts, rest, ?_, ?_, h.rest_open⟩
  · rw [h.text_eq]
    simp [Part.source]
  · simpa [Part.chars, hnn, hname] using h.parts_closed

/-- What the part does become. -/
def Part.output : Part → List Char
  | .plain chars => chars.flatMap pushBytes
  | .marker name => fillIn lossy fields name

private theorem expandFields_plain (h : '@' ∉ ch) (text : List Char) :
    expandFields lossy fs (ch ++ text) = ch.flatMap pushBytes ++ expandFields lossy fs text := by
  induction ch with
  | nil => rfl
  | cons c ch ih =>
    obtain ⟨hc, hch⟩ := not_or.mp (mt mem_cons.mpr h)
    rw [cons_append, expandFields, if_pos (Ne.symm hc), ih hch, flatMap_cons, append_assoc]

private theorem expandFields_marker (h : '@' ∉ u) (text : List Char) :
    expandFields lossy fs ('@' :: u ++ '@' :: text) =
      fillIn lossy fs u ++ expandFields lossy fs text := by
  rw [cons_append, expandFields, if_neg (by simp), if_pos (by simp), takeWhile_separator h,
    dropWhile_separator h, drop_succ_cons, drop_zero]

private theorem expandFields_open (h : '@' ∉ c) :
    expandFields lossy fs ('@' :: c) = ('@' :: c).flatMap pushBytes := by
  have hpl := expandFields_plain lossy fs h []
  rw [append_nil, expandFields, append_nil] at hpl
  rw [expandFields, if_neg (by simp), if_neg h, hpl]
  rfl

private theorem expandFields_eq (h : Divides s p l) :
    expandFields lossy fs s = p.flatMap (Part.output lossy fs) ++ l.flatMap pushBytes := by
  obtain ⟨rfl, hcs, hrest⟩ := h
  induction p with
  | nil =>
    rcases hrest with rfl | ⟨c, rfl, hch⟩
    · rw [flatMap_nil, append_nil, expandFields]
      rfl
    · exact expandFields_open lossy fs hch
  | cons pa p ih =>
    obtain ⟨hpr, hprt⟩ := forall_mem_cons.mp hcs
    rw [flatMap_cons, flatMap_cons, append_assoc, append_assoc, ← ih hprt]
    cases pa with
    | plain c => exact expandFields_plain lossy fs hpr _
    | marker n =>
      rw [Part.source, append_assoc, singleton_append]
      exact expandFields_marker lossy fs hpr _

private theorem length_flatMap_le {α β : Type} {f g : α → List β}
    (h : ∀ a, (g a).length ≤ (f a).length) (l : List α) :
    (l.flatMap g).length ≤ (l.flatMap f).length := by
  induction l with
  | nil => exact Nat.le_refl _
  | cons a l ih =>
    rw [flatMap_cons, flatMap_cons, length_append, length_append]
    exact Nat.add_le_add (h a) ih

private theorem flatMap_eq_flatMap_iff {α β : Type} {f g : α → List β}
    (h : ∀ a, (g a).length ≤ (f a).length) (l : List α) :
    l.flatMap f = l.flatMap g ↔ ∀ a ∈ l, f a = g a := by
  refine ⟨fun heq => ?_, flatMap_congr⟩
  induction l with
  | nil => exact forall_mem_nil _
  | cons a l ih =>
    have hle := length_flatMap_le h l
    rw [flatMap_cons, flatMap_cons] at heq
    have hln := congrArg List.length heq
    rw [length_append, length_append] at hln
    have ha := h a
    obtain ⟨hhd, htl⟩ := append_inj heq (by omega)
    exact forall_mem_cons.mpr ⟨hhd, ih htl⟩

private theorem length_pushBytes (c : Char) : (pushBytes c).length = c.utf8Size := by
  rw [pushBytes, length_map, String.length_utf8EncodeChar]

private theorem pushBytes_eq_iff (c : Char) : pushBytes c = [c] ↔ c.toNat < 128 := by
  have has : c.utf8Size = 1 ↔ c.toNat < 128 := by
    rw [Char.utf8Size_eq_one_iff, UInt32.le_iff_toNat_le]
    exact Nat.lt_succ_iff.symm
  constructor
  · intro h
    rw [← has, ← length_pushBytes, h, length_singleton]
  · intro h
    have hby : c.val.toUInt8.toNat = c.toNat := Nat.mod_eq_of_lt (Nat.lt_trans h (by decide))
    rw [pushBytes, String.utf8EncodeChar_eq_singleton (has.mpr h), map_singleton, hby,
      Char.ofNat_toNat]

private theorem one_le_pushBytes (c : Char) : [c].length ≤ (pushBytes c).length := by
  rw [length_pushBytes]
  exact c.utf8Size_pos

private theorem flatMap_pushBytes_eq_iff (ch : List Char) :
    ch.flatMap pushBytes = ch ↔ ∀ c ∈ ch, c.toNat < 128 := by
  have hiff := flatMap_eq_flatMap_iff one_le_pushBytes ch
  rw [flatMap_singleton'] at hiff
  simp only [hiff, pushBytes_eq_iff]

/-- Plain text is ASCII. -/
def Part.Ascii : Part → Prop
  | .plain chars => ∀ c ∈ chars, c.toNat < 128
  | .marker _ => True

theorem Part.output_eq_iff (p : Part) : p.output lossy fs = p.expansion lossy fs ↔ p.Ascii := by
  cases p with
  | plain c => exact flatMap_pushBytes_eq_iff c
  | marker n => exact iff_of_true rfl trivial

private theorem Part.length_expansion (p : Part) :
    (p.expansion lossy fs).length ≤ (p.output lossy fs).length := by
  cases p with
  | marker n => exact Nat.le_refl _
  | plain c =>
    have hle := length_flatMap_le one_le_pushBytes c
    rw [flatMap_singleton'] at hle
    exact hle

/-- The text outside the markers comes out as it is, and the markers as they are to be filled in,
exactly if that text is ASCII. -/
theorem expand_fields_iff :
    (∀ text, ∃ parts rest, Divides text parts rest) ∧
      ∀ text parts rest, Divides text parts rest →
        (expandFields lossy fields text =
            parts.flatMap (Part.expansion lossy fields) ++ rest ↔
          ∀ part ∈ parts ++ [.plain rest], part.Ascii) := by
  refine ⟨exists_divides, fun text parts rest h => ?_⟩
  have hiff := flatMap_eq_flatMap_iff (Part.length_expansion lossy fields) (parts ++ [.plain rest])
  simp only [flatMap_append, flatMap_singleton, Part.output_eq_iff] at hiff
  rw [expandFields_eq lossy fields h]
  exact hiff

/-- A letter outside ASCII comes out as two. -/
theorem expand_fields_latin :
    expandFields (fun _ => []) (fun _ => none) ['é'] = ['Ã', '©'] := by
  decide +kernel

end

end Rustd.Journal.Catalog
