import Mathlib

/-!
# Depth-first order

A depth-first walk of a graph given by the children of each node. A node is listed after its
children; a child that is on the way from the root to the node is passed over, which breaks the
cycle through it. A walk lists every node that can be reached once, and a child before its parent
unless the parent can be reached from the child.
-/

namespace Rustd.Base

open List

variable {α : Type}

/-- A node lies below another one, or is it. -/
def Reach (children : α → List α) : α → α → Prop :=
  Relation.ReflTransGen fun n c => c ∈ children n

namespace Reach

variable {children : α → List α} {a b c : α}

theorem refl (a : α) : Reach children a a := Relation.ReflTransGen.refl

theorem trans (h : Reach children a b) (h' : Reach children b c) : Reach children a c :=
  Relation.ReflTransGen.trans h h'

theorem child (h : b ∈ children a) : Reach children a b := Relation.ReflTransGen.single h

theorem closed {p : α → Prop} (h : Reach children a b) (ha : p a)
    (hcs : ∀ n, p n → ∀ c ∈ children n, p c) : p b := by
  induction h with
  | refl => exact ha
  | tail _ hc ih => exact hcs _ ih _ hc

end Reach

def Before (order : List α) (a b : α) : Prop := List.Sublist [a, b] order

namespace Before

variable {order : List α} {a b : α}

theorem append (h : Before order a b) (m : List α) : Before (order ++ m) a b :=
  h.trans (sublist_append_left order m)

theorem concat (h : a ∈ order) : Before (order ++ [b]) a b := by
  have hbo : List.Sublist ([a] ++ [b]) (order ++ [b]) :=
    (singleton_sublist.mpr h).append (List.Sublist.refl [b])
  exact hbo

end Before

/-- A depth-first walk: with the nodes of the stack open and some nodes listed, the walk through the
given nodes lists more. Every node that is entered passes a test. -/
inductive Walk (children : α → List α) (ok : α → Prop) :
    List α → List α → List α → List α → Prop
  | nil {stack order : List α} : Walk children ok stack order [] order
  | seen {stack order nodes order' : List α} {n : α} (h : n ∈ order ∨ n ∈ stack)
      (rest : Walk children ok stack order nodes order') :
      Walk children ok stack order (n :: nodes) order'
  | enter {stack order inner nodes order' : List α} {n : α} (horder : n ∉ order)
      (hstack : n ∉ stack) (hok : ok n)
      (below : Walk children ok (n :: stack) order (children n) inner)
      (rest : Walk children ok stack (inner ++ [n]) nodes order') :
      Walk children ok stack order (n :: nodes) order'

namespace Walk

variable {children : α → List α} {ok : α → Prop} {stack order nodes order' : List α}

theorem append {m order'' : List α} (h : Walk children ok stack order nodes order')
    (h' : Walk children ok stack order' m order'') :
    Walk children ok stack order (nodes ++ m) order'' := by
  induction h with
  | nil => exact h'
  | seen hn _ ih => exact .seen hn (ih h')
  | enter hord hsck hok be _ _ ih => exact .enter hord hsck hok be (ih h')

private theorem exists_new (h : Walk children ok stack order nodes order') :
    ∃ new, order' = order ++ new := by
  induction h with
  | nil => exact ⟨[], (append_nil _).symm⟩
  | seen _ _ ih => exact ih
  | @enter stack order inner nodes order' n _ _ _ _ _ i ihrest =>
    obtain ⟨new, rfl⟩ := i
    obtain ⟨m, rfl⟩ := ihrest
    exact ⟨new ++ [n] ++ m, by simp only [append_assoc]⟩

private theorem mem_of_mem (h : Walk children ok stack order nodes order') (hn : n ∈ order) :
    n ∈ order' := by
  obtain ⟨new, rfl⟩ := h.exists_new
  exact mem_append_left _ hn

private theorem not_mem_of_stack (h : Walk children ok stack order nodes order')
    (hfre : ∀ n ∈ stack, n ∉ order) : ∀ n ∈ stack, n ∉ order' := by
  induction h with
  | nil => exact hfre
  | seen _ _ ih => exact ih hfre
  | @enter stack order inner nodes order' n hord hsck _ _ _ i ihrest =>
    have hbe : ∀ k ∈ n :: stack, k ∉ inner := by
      refine i fun k hk => ?_
      rcases mem_cons.mp hk with rfl | hk
      · exact hord
      · exact hfre k hk
    refine ihrest fun k hk hmem => ?_
    rcases mem_append.mp hmem with hmem | hmem
    · exact hbe k (mem_cons_of_mem _ hk) hmem
    · exact hsck (mem_singleton.mp hmem ▸ hk)

theorem nodup (h : Walk children ok stack order nodes order') (hfre : ∀ n ∈ stack, n ∉ order)
    (hord : order.Nodup) : order'.Nodup := by
  induction h with
  | nil => exact hord
  | seen _ _ ih => exact ih hfre hord
  | @enter stack order inner nodes order' n hnew hsck _ be _ i ihrest =>
    have hpu : ∀ k ∈ n :: stack, k ∉ order := by
      intro k hk
      rcases mem_cons.mp hk with rfl | hk
      · exact hnew
      · exact hfre k hk
    have hinn := be.not_mem_of_stack hpu
    refine ihrest ?_ ?_
    · intro k hk hmem
      rcases mem_append.mp hmem with hmem | hmem
      · exact hinn k (mem_cons_of_mem _ hk) hmem
      · exact hsck (mem_singleton.mp hmem ▸ hk)
    refine List.Nodup.append (i hpu hord) (nodup_singleton n) ?_
    intro k hk hmem
    rw [mem_singleton.mp hmem] at hk
    exact hinn n mem_cons_self hk

private theorem reach_of_mem (h : Walk children ok stack order nodes order') (hk : k ∈ order') :
    k ∈ order ∨ ok k ∧ ∃ n ∈ nodes, Reach children n k := by
  induction h with
  | nil => exact .inl hk
  | seen _ _ ih =>
    rcases ih hk with hold | ⟨hok, m, hm, hrc⟩
    · exact .inl hold
    · exact .inr ⟨hok, m, mem_cons_of_mem _ hm, hrc⟩
  | @enter stack order inner nodes order' n _ _ hok _ _ i ihrest =>
    rcases ihrest hk with hold | ⟨hps, m, hm, hrc⟩
    · rcases mem_append.mp hold with hinn | hsf
      · rcases i hinn with hold | ⟨hps, c, hc, hrc⟩
        · exact .inl hold
        · exact .inr ⟨hps, n, mem_cons_self, (Reach.child hc).trans hrc⟩
      · rw [mem_singleton.mp hsf]
        exact .inr ⟨hok, n, mem_cons_self, Reach.refl n⟩
    · exact .inr ⟨hps, m, mem_cons_of_mem _ hm, hrc⟩

private theorem mem_or_stack (h : Walk children ok stack order nodes order') :
    ∀ n ∈ nodes, n ∈ order' ∨ n ∈ stack := by
  induction h with
  | nil => exact fun n hn => by cases hn
  | @seen stack order nodes order' n hn l ih =>
    intro k hk
    rcases mem_cons.mp hk with rfl | hk
    · exact hn.imp_left l.mem_of_mem
    · exact ih k hk
  | @enter stack order inner nodes order' n _ _ _ _ l _ i =>
    intro k hk
    rcases mem_cons.mp hk with rfl | hk
    · exact .inl (l.mem_of_mem (mem_append_right _ mem_cons_self))
    · exact i k hk

private theorem child_mem_or_stack (h : Walk children ok stack order nodes order')
    (hk : k ∈ order') (hc : c ∈ children k) : k ∈ order ∨ c ∈ order' ∨ c ∈ stack := by
  induction h with
  | nil => exact .inl hk
  | seen _ _ ih => exact ih hk
  | @enter stack order inner nodes order' n _ _ _ be l i ihrest =>
    have hlst : n ∈ order' := l.mem_of_mem (mem_append_right _ mem_cons_self)
    -- What is open below `n` is `n` itself or open outside.
    have hli : c ∈ inner ∨ c ∈ n :: stack → c ∈ order' ∨ c ∈ stack := by
      rintro (hinn | hon)
      · exact .inl (l.mem_of_mem (mem_append_left _ hinn))
      rcases mem_cons.mp hon with rfl | hon
      · exact .inl hlst
      · exact .inr hon
    rcases ihrest hk with hold | hdn
    · rcases mem_append.mp hold with hinn | hsf
      · exact (i hinn).imp_right hli
      · rw [mem_singleton.mp hsf] at hc
        exact .inr (hli (be.mem_or_stack c hc))
    · exact .inr hdn

private theorem before_or_reach (h : Walk children ok stack order nodes order')
    (hon : ∀ t ∈ stack, ∀ n ∈ nodes, Reach children t n) (hk : k ∈ order')
    (hc : c ∈ children k) : k ∈ order ∨ Before order' c k ∨ Reach children c k := by
  induction h with
  | nil => exact .inl hk
  | seen _ _ ih => exact ih (fun t ht n hn => hon t ht n (mem_cons_of_mem _ hn)) hk
  | @enter stack order inner nodes order' n _ _ _ be l i ihrest =>
    have hbe : ∀ t ∈ n :: stack, ∀ d ∈ children n, Reach children t d := by
      intro t ht d hd
      rcases mem_cons.mp ht with rfl | ht
      · exact Reach.child hd
      · exact (hon t ht n mem_cons_self).trans (Reach.child hd)
    obtain ⟨m, hmor⟩ := l.exists_new
    rcases ihrest (fun t ht d hd => hon t ht d (mem_cons_of_mem _ hd)) hk with hold | hdn
    · rcases mem_append.mp hold with hinn | hsf
      · rcases i hbe hinn with hold | hbf | hrc
        · exact .inl hold
        · rw [hmor]
          exact .inr (.inl ((hbf.append [n]).append m))
        · exact .inr (.inr hrc)
      · -- The children of `n` are walked through right before `n` is listed.
        obtain rfl := mem_singleton.mp hsf
        rcases be.mem_or_stack c hc with hinn | hsck
        · rw [hmor]
          exact .inr (.inl ((Before.concat hinn).append m))
        rcases mem_cons.mp hsck with rfl | hsck
        · exact .inr (.inr (Reach.refl c))
        · exact .inr (.inr (hon c hsck k mem_cons_self))
    · exact .inr hdn

end Walk

/-- What a depth-first order of the nodes below a root is. -/
structure DepthFirst (children : α → List α) (root : α) (order : List α) : Prop where
  nodup : order.Nodup
  last : order.getLast? = some root
  mem_iff : ∀ n, n ∈ order ↔ Reach children root n
  before : ∀ n ∈ order, ∀ c ∈ children n, ¬Reach children c n → Before order c n

variable {children : α → List α} {ok : α → Prop} {root : α} {order : List α}

theorem Walk.depthFirst (h : Walk children ok [] [] [root] order) :
    DepthFirst children root order := by
  have hcs : ∀ n, n ∈ order → ∀ c ∈ children n, c ∈ order := by
    intro n hn c hc
    rcases h.child_mem_or_stack hn hc with hold | hlst | hon
    · cases hold
    · exact hlst
    · cases hon
  have hro : root ∈ order := by
    rcases h.mem_or_stack root mem_cons_self with hlst | hon
    · exact hlst
    · cases hon
  refine ⟨h.nodup (fun n hn => by cases hn) nodup_nil, ?_, ?_, ?_⟩
  · cases h with
    | seen hse _ => rcases hse with hse | hse <;> cases hse
    | enter _ _ _ _ l =>
      cases l
      exact getLast?_concat
  · intro n
    constructor
    · intro hn
      rcases h.reach_of_mem hn with hold | ⟨-, m, hm, hrc⟩
      · cases hold
      · rwa [← mem_singleton.mp hm]
    · exact fun hrc => hrc.closed hro hcs
  · intro n hn c hc hnot
    rcases h.before_or_reach (fun t ht => by cases ht) hn hc with hold | hbf | hrc
    · cases hold
    · exact hbf
    · exact absurd hrc hnot

theorem Walk.ok_of_mem (h : Walk children ok [] [] [root] order) (hn : n ∈ order) : ok n := by
  rcases h.reach_of_mem hn with hold | ⟨hok, -⟩
  · cases hold
  · exact hok

end Rustd.Base
