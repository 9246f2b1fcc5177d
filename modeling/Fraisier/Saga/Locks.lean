import Fraisier.Saga.StateStore

/-!
# The locks of the three state stores

Each backend takes the lock of a pair without waiting: the in-memory one by inserting into
a set (`memoryStore`), the filesystem one by an exclusive `flock` on a file, the SQLite one
by inserting a row under a primary key. The last two name the pair by its slug. Their other
methods are any handler on the records, as no lock is read or written by them. `TryLock`
says what the three have in common, and `Backend.tryLock` that they have it.
-/

namespace Fraisier.Saga

open Fraisier.Effect

/-! ## Slugs -/

/-- The characters a file name keeps. -/
def keepsInSlug (c : Char) : Bool :=
  c.isAlphanum || c == '.' || c == '-' || c == '_'

/-- A number as at least sixteen lower-case hexadecimal digits. -/
def hex16 (n : UInt64) : String :=
  let digits := Nat.toDigits 16 n.toNat
  String.ofList (List.replicate (16 - digits.length) '0' ++ digits)

/-- The filesystem-safe name of a pair: the two names with every other character replaced,
and the hash of the pair. -/
def FraiseKey.slug (stableHash : FraiseKey → UInt64) (key : FraiseKey) : String :=
  let sanitized := (key.fraise ++ "__" ++ key.environment).toList.map fun c =>
    if keepsInSlug c then c else '_'
  String.ofList sanitized ++ "-" ++ hex16 (stableHash key)

/-! ## The lock methods -/

/-- The lock methods of a backend, on the state of its locks. -/
structure LockMethods (ν : Type) where
  acquireLock : FraiseKey → ν → Except StateStoreError LockGuard × ν
  releaseLock : LockGuard → ν → Except StateStoreError Unit × ν

/-- The store with the given lock methods that answers every other method from its
records. -/
def LockMethods.store {ν ρ : Type} (locks : LockMethods ν) (records : Handler StoreSig ρ) :
    Handler StoreSig (ν × ρ)
  | .acquireLock key, s => ((locks.acquireLock key s.1).1, (locks.acquireLock key s.1).2, s.2)
  | .releaseLock guard, s => ((locks.releaseLock guard s.1).1, (locks.releaseLock guard s.1).2, s.2)
  | c, s => ((records c s.2).1, s.1, (records c s.2).2)

/-- The file locks as the operating system keeps them: the files that are locked
exclusively, and how many lock calls it has answered. -/
structure Flocks where
  held : String → Bool
  calls : Nat

/-- The errors the operating system answers to the `n`-th lock call, other than that the
file is locked. -/
structure FlockFaults where
  openFile : Nat → Option String
  lock : Nat → Option String
  unlock : Nat → Option String

namespace Flocks

/-- One more call was answered. -/
def tick (f : Flocks) : Flocks :=
  { f with calls := f.calls + 1 }

/-- Lock or unlock a file. -/
def set (f : Flocks) (path : String) (held : Bool) : Flocks :=
  { f with held := Function.update f.held path held }

end Flocks

/-- The lock methods of the filesystem backend. A file that could not be unlocked is closed
with its guard, which unlocks it as well. -/
def flockMethods (lockPath : FraiseKey → String) (faults : FlockFaults) : LockMethods Flocks where
  acquireLock key f :=
    match faults.openFile f.calls, faults.lock f.calls with
    | some error, _ => (.error (.io error), f.tick)
    | none, some errno => (.error (.backend s!"flock failed: {errno}"), f.tick)
    | none, none =>
        if f.held (lockPath key) then (.error (.locked (toString key)), f.tick)
        else (.ok ⟨key⟩, (f.set (lockPath key) true).tick)
  releaseLock guard f :=
    match faults.unlock f.calls with
    | some errno =>
        (.error (.backend s!"flock unlock failed: {errno}"),
          (f.set (lockPath guard.key) false).tick)
    | none => (.ok (), (f.set (lockPath guard.key) false).tick)

/-- A row of the `locks` table. -/
structure LockRow where
  key : String
  fraise : String
  environment : String

/-- The `locks` table, and how many statements were executed on it. -/
structure LockTable where
  rows : List LockRow
  statements : Nat

namespace LockTable

/-- Whether there is a row with the given primary key. -/
def contains (t : LockTable) (slug : String) : Bool :=
  t.rows.any fun row => row.key == slug

/-- One more statement was executed. -/
def tick (t : LockTable) : LockTable :=
  { t with statements := t.statements + 1 }

/-- `INSERT INTO locks` -/
def insert (t : LockTable) (row : LockRow) : LockTable :=
  { t with rows := t.rows ++ [row] }

/-- `DELETE FROM locks WHERE key = ?1` -/
def delete (t : LockTable) (slug : String) : LockTable :=
  { t with rows := t.rows.filter fun row => row.key != slug }

end LockTable

/-- The lock methods of the SQLite backend. `faults n` is the error the database reports for
the `n`-th statement, other than that the primary key is taken. -/
def lockTableMethods (slug : FraiseKey → String) (faults : Nat → Option String) :
    LockMethods LockTable where
  acquireLock key t :=
    match faults t.statements with
    | some error => (.error (.database error), t.tick)
    | none =>
        if t.contains (slug key) then (.error (.locked (toString key)), t.tick)
        else (.ok ⟨key⟩, (t.insert ⟨slug key, key.fraise, key.environment⟩).tick)
  releaseLock guard t :=
    match faults t.statements with
    | some error => (.error (.database error), t.tick)
    | none => (.ok (), (t.delete (slug guard.key)).tick)

/-! ## What the locks have in common -/

/-- A store whose lock is a try-lock. The pairs with the same slot share one lock. A lock
that is granted was free and is held from then on, and nothing but releasing a guard for
its slot frees it. -/
structure TryLock {σ κ : Type} (h : Handler StoreSig σ) (slot : FraiseKey → κ)
    (held : σ → κ → Prop) : Prop where
  granted : ∀ key guard s, (h (.acquireLock key) s).1 = .ok guard →
    guard.key = key ∧ ¬ held s (slot key) ∧ held (h (.acquireLock key) s).2 (slot key)
  kept : ∀ c s k, (∀ guard, c = .releaseLock guard → slot guard.key ≠ k) → held s k →
    held (h c s).2 k

theorem memoryStore_tryLock : TryLock memoryStore id fun s key => s.locked key = true where
  granted key guard s hanswer := by
    by_cases hheld : s.locked key
    · simp [memoryStore, hheld] at hanswer
    · rw [memoryStore, if_neg hheld] at hanswer
      cases hanswer
      simp [memoryStore, hheld, MemoryStore.setLock]
  kept c s k hrelease hheld := by
    cases c with
    | acquireLock key =>
        by_cases hkey : s.locked key
        · simpa [memoryStore, hkey] using hheld
        · have hne : k ≠ key := fun heq => hkey (heq ▸ hheld)
          simpa [memoryStore, hkey, MemoryStore.setLock, hne] using hheld
    | releaseLock guard =>
        have hne : k ≠ guard.key := fun heq => hrelease guard rfl heq.symm
        simpa [memoryStore, MemoryStore.setLock, hne] using hheld
    | recordState key state => simpa [memoryStore, MemoryStore.pushState] using hheld
    | recordSnapshot key snapshot => simpa [memoryStore, MemoryStore.setSnapshot] using hheld
    | _ => exact hheld

/-- Only the lock methods have to be looked at. -/
theorem LockMethods.tryLock {ν ρ κ : Type} {locks : LockMethods ν} {slot : FraiseKey → κ}
    (held : ν → κ → Prop)
    (hgranted : ∀ key guard l, (locks.acquireLock key l).1 = .ok guard →
      guard.key = key ∧ ¬ held l (slot key) ∧ held (locks.acquireLock key l).2 (slot key))
    (hacquire : ∀ key l k, held l k → held (locks.acquireLock key l).2 k)
    (hrelease : ∀ guard l k, slot guard.key ≠ k → held l k → held (locks.releaseLock guard l).2 k)
    (records : Handler StoreSig ρ) :
    TryLock (locks.store records) slot fun s k => held s.1 k where
  granted key guard s hanswer := hgranted key guard s.1 hanswer
  kept c s k hother hheld := by
    cases c with
    | acquireLock key => exact hacquire key s.1 k hheld
    | releaseLock guard => exact hrelease guard s.1 k (hother guard rfl) hheld
    | _ => exact hheld

section Filesystem

variable {lockPath : FraiseKey → String} {faults : FlockFaults} {f : Flocks}

/-- The file is locked by a lock call that answers a guard only. -/
theorem flockMethods_granted {key : FraiseKey} {guard : LockGuard}
    (h : ((flockMethods lockPath faults).acquireLock key f).1 = .ok guard) :
    guard = ⟨key⟩ ∧ f.held (lockPath key) = false ∧
      ((flockMethods lockPath faults).acquireLock key f).2 = (f.set (lockPath key) true).tick := by
  dsimp only [flockMethods] at h ⊢
  cases hopen : faults.openFile f.calls with
  | some error => simp [hopen] at h
  | none =>
      cases hlock : faults.lock f.calls with
      | some errno => simp [hopen, hlock] at h
      | none =>
          cases hheld : f.held (lockPath key) with
          | true => simp [hopen, hlock, hheld] at h
          | false =>
              simp only [hopen, hlock, hheld] at h ⊢
              cases h
              exact ⟨rfl, trivial, rfl⟩

theorem flockMethods_acquire_keeps {key : FraiseKey} {path : String} (h : f.held path = true) :
    ((flockMethods lockPath faults).acquireLock key f).2.held path = true := by
  dsimp only [flockMethods]
  split
  · exact h
  · exact h
  · split
    · exact h
    · by_cases hpath : path = lockPath key <;> simp [Flocks.tick, Flocks.set, hpath, h]

theorem flockMethods_release_keeps {guard : LockGuard} {path : String}
    (hne : lockPath guard.key ≠ path) (h : f.held path = true) :
    ((flockMethods lockPath faults).releaseLock guard f).2.held path = true := by
  dsimp only [flockMethods]
  split <;> simpa [Flocks.tick, Flocks.set, hne.symm] using h

theorem flockStore_tryLock {ρ : Type} (lockPath : FraiseKey → String) (faults : FlockFaults)
    (records : Handler StoreSig ρ) :
    TryLock ((flockMethods lockPath faults).store records) lockPath
      fun s path => s.1.held path = true := by
  refine LockMethods.tryLock (fun (f : Flocks) path => f.held path = true)
    (fun key guard f h => ?_) ?_ ?_ records
  · obtain ⟨hguard, hfree, hset⟩ := flockMethods_granted h
    refine ⟨by rw [hguard], by simp [hfree], ?_⟩
    rw [hset]
    simp [Flocks.tick, Flocks.set]
  · exact fun key f path h => flockMethods_acquire_keeps h
  · exact fun guard f path hne h => flockMethods_release_keeps hne h

end Filesystem

section Sqlite

variable {slug : FraiseKey → String} {faults : Nat → Option String} {t : LockTable}

/-- A row is inserted by a statement that answers a guard only. -/
theorem lockTableMethods_granted {key : FraiseKey} {guard : LockGuard}
    (h : ((lockTableMethods slug faults).acquireLock key t).1 = .ok guard) :
    guard = ⟨key⟩ ∧ t.contains (slug key) = false ∧
      ((lockTableMethods slug faults).acquireLock key t).2 =
        (t.insert ⟨slug key, key.fraise, key.environment⟩).tick := by
  dsimp only [lockTableMethods] at h ⊢
  cases hfault : faults t.statements with
  | some error => simp [hfault] at h
  | none =>
      cases htaken : t.contains (slug key) with
      | true => simp [hfault, htaken] at h
      | false =>
          simp only [hfault, htaken] at h ⊢
          cases h
          exact ⟨rfl, trivial, rfl⟩

theorem lockTableMethods_acquire_keeps {key : FraiseKey} {name : String}
    (h : t.contains name = true) :
    ((lockTableMethods slug faults).acquireLock key t).2.contains name = true := by
  dsimp only [lockTableMethods]
  split
  · exact h
  · split
    · exact h
    · rw [LockTable.contains] at h
      simp [LockTable.tick, LockTable.insert, LockTable.contains, h]

theorem lockTableMethods_release_keeps {guard : LockGuard} {name : String}
    (hne : slug guard.key ≠ name) (h : t.contains name = true) :
    ((lockTableMethods slug faults).releaseLock guard t).2.contains name = true := by
  dsimp only [lockTableMethods]
  split
  · exact h
  · obtain ⟨row, hrow, hname⟩ := List.any_eq_true.mp h
    obtain rfl : row.key = name := by simpa using hname
    -- The row of another pair is not deleted.
    refine List.any_eq_true.mpr ⟨row, List.mem_filter.mpr ⟨hrow, ?_⟩, hname⟩
    simpa using hne.symm

theorem lockTableStore_tryLock {ρ : Type} (slug : FraiseKey → String)
    (faults : Nat → Option String) (records : Handler StoreSig ρ) :
    TryLock ((lockTableMethods slug faults).store records) slug
      fun s name => s.1.contains name = true := by
  refine LockMethods.tryLock (fun (t : LockTable) name => t.contains name = true)
    (fun key guard t h => ?_) ?_ ?_ records
  · obtain ⟨hguard, hfree, hset⟩ := lockTableMethods_granted h
    refine ⟨by rw [hguard], by simp [hfree], ?_⟩
    rw [hset]
    simp [LockTable.tick, LockTable.insert, LockTable.contains]
  · exact fun key t name h => lockTableMethods_acquire_keeps h
  · exact fun guard t name hne h => lockTableMethods_release_keeps hne h

end Sqlite

/-! ## The three backends -/

/-- A state store. What the filesystem and the SQLite one answer to other methods than the
lock's, and which calls fail, is open. -/
inductive Backend (ρ : Type) where
  | memory
  | filesystem (root : String) (faults : FlockFaults) (records : Handler StoreSig ρ)
  | sqlite (faults : Nat → Option String) (records : Handler StoreSig ρ)

namespace Backend

variable {ρ : Type}

/-- The content of a store. -/
def State : Backend ρ → Type
  | .memory => MemoryStore
  | .filesystem _ _ _ => Flocks × ρ
  | .sqlite _ _ => LockTable × ρ

/-- The methods of a store. -/
def store (stableHash : FraiseKey → UInt64) : (b : Backend ρ) → Handler StoreSig b.State
  | .memory => memoryStore
  | .filesystem root faults records =>
      (flockMethods (fun key => root ++ "/" ++ key.slug stableHash ++ ".lock") faults).store
        records
  | .sqlite faults records => (lockTableMethods (FraiseKey.slug stableHash) faults).store records

/-- The lock of every backend is a try-lock. -/
theorem tryLock (stableHash : FraiseKey → UInt64) (b : Backend ρ) :
    ∃ (κ : Type) (slot : FraiseKey → κ) (held : b.State → κ → Prop),
      TryLock (b.store stableHash) slot held := by
  cases b with
  | memory => exact ⟨_, _, _, memoryStore_tryLock⟩
  | filesystem root faults records => exact ⟨_, _, _, flockStore_tryLock _ faults records⟩
  | sqlite faults records => exact ⟨_, _, _, lockTableStore_tryLock _ faults records⟩

end Backend

end Fraisier.Saga
