/-
  CompileCache.Store.Memory — records kept in memory, up to a capacity in bytes.

  A record larger than the whole store is turned away without an error, and what was
  filed under its scope stays. When records together outgrow the capacity, some of them have
  to go. Which ones, and how soon, is up to the store's upkeep (`Upkeep`): it may turn the new
  record away or drop any of the old ones, or leave them all for the time being, but it drops
  nothing as long as everything fits.
-/

import CompileCache.Store

namespace CompileCache.Store

/-- How many bytes the records come to. -/
def bytesIn : List (Bytes × Record) → Nat
  | [] => 0
  | e :: es => e.2.size + bytesIn es

/-- What stays in memory once a record was filed, newest first. -/
structure Upkeep where
  keeps : (capacity : Nat) → (entries : List (Bytes × Record)) → (scope : Bytes) → Bool
  keeps_of_room : ∀ {capacity entries}, bytesIn entries ≤ capacity →
    ∀ e ∈ entries, keeps capacity entries e.1 = true

namespace Upkeep

/-- The newest entries that fit together. -/
def fitting : (capacity : Nat) → List (Bytes × Record) → List (Bytes × Record)
  | _, [] => []
  | capacity, e :: es => if e.2.size ≤ capacity then e :: fitting (capacity - e.2.size) es else []

theorem fitting_of_room {capacity : Nat} {entries : List (Bytes × Record)}
    (h : bytesIn entries ≤ capacity) : fitting capacity entries = entries := by
  induction entries generalizing capacity with
  | nil => rfl
  | cons e es ih =>
    have hsum : e.2.size + bytesIn es ≤ capacity := by simpa [bytesIn] using h
    rw [fitting, if_pos (by omega), ih (by omega)]

/-- Drops the oldest entries if there are too many. -/
def oldestFirst : Upkeep where
  keeps capacity entries scope := (fitting capacity entries).any (·.1 == scope)
  keeps_of_room h e he := by
    rw [fitting_of_room h]
    exact List.any_eq_true.2 ⟨e, he, beq_self_eq_true e.1⟩

/-- Turns the new entry away if there are too many. -/
def firstComers : Upkeep where
  keeps capacity entries scope :=
    decide (bytesIn entries ≤ capacity) || entries.tail.any (·.1 == scope)
  keeps_of_room h _ _ := by simp [h]

end Upkeep

structure Memory where
  capacity : Nat
  capacity_pos : 0 < capacity
  upkeep : Upkeep
  /-- Newest first; each scope at most once. -/
  entries : List (Bytes × Record)

namespace Memory

/-- A store must have room for something. -/
def empty? (upkeep : Upkeep) (capacity : Nat) : Option Memory :=
  if h : 0 < capacity then some ⟨capacity, h, upkeep, []⟩ else none

def size (s : Memory) : Nat := s.entries.length

/-- The record filed under a scope, whatever its tag. -/
def filed? (s : Memory) (scope : Bytes) : Option Record := s.entries.lookup scope

def forget (s : Memory) (gone : Bytes → Bool) : Memory :=
  { s with entries := s.entries.filter fun e => !gone e.1 }

def erase (s : Memory) (scope : Bytes) : Memory :=
  { s with entries := s.entries.filter fun e => e.1 ≠ scope }

/-- Drops what the upkeep does not keep. -/
def relieve (s : Memory) : Memory :=
  s.forget fun scope => !s.upkeep.keeps s.capacity s.entries scope

def insert (s : Memory) (scope : Bytes) (r : Record) : Memory :=
  { s with entries := (scope, r) :: (s.erase scope).entries }

def get (s : Memory) (key : Key) : Option Record :=
  (s.filed? key.scope).filter fun r => r.tag == key.tag

def evict (s : Memory) (key : Key) : Memory := s.erase key.scope

def put (s : Memory) (key : Key) (r : Record) : Memory :=
  if s.capacity < r.size then s else (s.insert key.scope r).relieve

end Memory

end CompileCache.Store
