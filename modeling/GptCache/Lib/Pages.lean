/-
Results that come in pages: a page may name a key to ask for the next one with.

`Chain request start pages`: asking from `start` on goes through `pages` and
ends. Following the keys (`fetchAll`) collects just these pages, given fuel for
each of them (`Chain.fetchAll`); the first page holds all there is when the
pages behind it are empty.
-/
import Mathlib.Data.List.Basic

namespace GptCache

structure Page (K I : Type) where
  items : List I
  next : Option K := none

namespace Page

variable {K I : Type}

/-- All that is on these pages. -/
def content (pages : List (Page K I)) : List I := pages.flatMap Page.items

inductive Chain (request : Option K → Page K I) : Option K → List (Page K I) → Prop
  | last {start : Option K} (h : (request start).next = none) : Chain request start [request start]
  | more {start : Option K} {k : K} {rest : List (Page K I)} (h : (request start).next = some k)
      (hrest : Chain request (some k) rest) : Chain request start (request start :: rest)

/-- Asks for page after page and collects them behind `all`. -/
def fetchAll (request : Option K → Page K I) : Nat → Option K → List (Page K I) → Option (List (Page K I))
  | 0, _, _ => none
  | fuel + 1, start, all =>
    match (request start).next with
    | some k => fetchAll request fuel (some k) (all ++ [request start])
    | none => some (all ++ [request start])

namespace Chain

variable {request : Option K → Page K I} {start : Option K} {pages : List (Page K I)}

theorem eq_cons (h : Chain request start pages) : ∃ rest, pages = request start :: rest := by
  cases h with
  | last _ => exact ⟨[], rfl⟩
  | more _ _ => exact ⟨_, rfl⟩

theorem unique (h : Chain request start pages) : ∀ {pages' : List (Page K I)}, Chain request start pages' →
    pages = pages' := by
  induction h with
  | last hnext =>
    intro pages' h'
    cases h' with
    | last _ => rfl
    | more hmore _ =>
      rw [hnext] at hmore
      cases hmore
  | more hnext _ ih =>
    intro pages' h'
    cases h' with
    | last hlast =>
      rw [hnext] at hlast
      cases hlast
    | more hmore hrest =>
      rw [hnext] at hmore
      cases hmore
      rw [ih hrest]

/-- What is on the first page and what is behind it. -/
theorem content_eq (h : Chain request start pages) : content pages = (request start).items ++ content pages.tail := by
  obtain ⟨rest, rfl⟩ := h.eq_cons
  exact List.flatMap_cons

theorem fetchAll (h : Chain request start pages) : ∀ {fuel : Nat}, pages.length ≤ fuel → ∀ all : List (Page K I),
    Page.fetchAll request fuel start all = some (all ++ pages) := by
  induction h with
  | last hnext =>
    intro fuel hfuel all
    cases fuel with
    | zero => simp at hfuel
    | succ fuel => simp only [Page.fetchAll, hnext]
  | @more start k rest hnext _ ih =>
    intro fuel hfuel all
    cases fuel with
    | zero => simp at hfuel
    | succ fuel =>
      simp only [Page.fetchAll, hnext]
      rw [ih (Nat.le_of_succ_le_succ hfuel), List.append_assoc]
      rfl

end Chain

/-- Where following the keys ends, it went through a chain. -/
theorem chain_of_fetchAll {request : Option K → Page K I} :
    ∀ {fuel : Nat} {start : Option K} {all pages : List (Page K I)},
    fetchAll request fuel start all = some pages → ∃ rest, pages = all ++ rest ∧ Chain request start rest
  | 0, _, _, _, h => by cases h
  | fuel + 1, start, all, pages, h => by
    cases hnext : (request start).next with
    | none =>
      simp only [fetchAll, hnext, Option.some.injEq] at h
      exact ⟨_, h.symm, .last hnext⟩
    | some k =>
      simp only [fetchAll, hnext] at h
      obtain ⟨rest, hpages, hrest⟩ := chain_of_fetchAll h
      exact ⟨_, by rw [hpages, List.append_assoc]; rfl, .more hnext hrest⟩

end Page

end GptCache
