import Mathlib.Data.List.Basic

/-! A read-write lock: one writer, or any number of readers. -/
namespace LinuxCourse.Library

structure RwLock (Reader : Type) where
  writing : Bool
  reading : List Reader
  exclusive : writing = true → reading = []

namespace RwLock
variable {Reader : Type}

def free : RwLock Reader := ⟨false,[],nofun⟩

def wrlock (lock : RwLock Reader) : Option (RwLock Reader) :=
  if lock.writing = false ∧ lock.reading = [] then some ⟨true,[],fun _ => rfl⟩ else none

def wrunlock (lock : RwLock Reader) : Option (RwLock Reader) :=
  if lock.writing = true then some free else none

def rdlock (lock : RwLock Reader) (reader : Reader) : Option (RwLock Reader) :=
  if lock.writing = false then some ⟨false,reader::lock.reading,nofun⟩ else none

def rdunlock [DecidableEq Reader] (lock : RwLock Reader) (reader : Reader) : Option (RwLock Reader) :=
  if reader ∈ lock.reading then some ⟨false,lock.reading.filter (· ≠ reader),nofun⟩ else none

theorem wrlock_cases (lock next : RwLock Reader) (locked : lock.wrlock = some next) :
    lock.reading = [] ∧ next.writing = true ∧ next.reading = [] := by
  unfold wrlock at locked
  split at locked
  · rename_i idle
    obtain rfl := Option.some.inj locked
    exact ⟨idle.2,rfl,rfl⟩
  · contradiction

theorem wrunlock_cases (lock next : RwLock Reader) (unlocked : lock.wrunlock = some next) :
    lock.reading = [] ∧ next.writing = false ∧ next.reading = [] := by
  unfold wrunlock at unlocked
  split at unlocked
  · rename_i held
    obtain rfl := Option.some.inj unlocked
    exact ⟨lock.exclusive held,rfl,rfl⟩
  · contradiction

theorem rdlock_cases (lock next : RwLock Reader) (reader : Reader)
    (locked : lock.rdlock reader = some next) :
    lock.writing = false ∧ next.writing = false ∧ next.reading = reader::lock.reading := by
  unfold rdlock at locked
  split at locked
  · rename_i idle
    obtain rfl := Option.some.inj locked
    exact ⟨idle,rfl,rfl⟩
  · contradiction

theorem not_writing (lock : RwLock Reader) (reader : Reader) (held : reader ∈ lock.reading) :
    lock.writing = false := by
  rw [← Bool.not_eq_true]
  intro writing
  rw [lock.exclusive writing] at held
  contradiction

theorem rdunlock_cases [DecidableEq Reader] (lock next : RwLock Reader) (reader : Reader)
    (unlocked : lock.rdunlock reader = some next) :
    lock.writing = false ∧ next.writing = false ∧ next.reading = lock.reading.filter (· ≠ reader) := by
  unfold rdunlock at unlocked
  split at unlocked
  · rename_i held
    obtain rfl := Option.some.inj unlocked
    exact ⟨lock.not_writing reader held,rfl,rfl⟩
  · contradiction

end RwLock
end LinuxCourse.Library
