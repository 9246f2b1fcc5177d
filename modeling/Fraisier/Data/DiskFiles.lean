import Fraisier.Data.Bytes

/-!
# Files that are written call by call

A list of calls may be cut off anywhere: between two of them, or within one that has written only
some of its bytes. `performed` is what is done of it then. A rename is done or it is not.
-/

namespace Fraisier.Data

section Contents

variable {β γ : Type}

/-- Named contents, each changed. -/
def mapContents (f : β → γ) (files : List (String × β)) : List (String × γ) :=
  files.map fun e => (e.1, f e.2)

variable {f : β → γ} {files : List (String × β)} {name : String}

@[simp] theorem lookup_mapContents :
    (mapContents f files).lookup name = (files.lookup name).map f := by
  induction files with
  | nil => rfl
  | cons e files ih =>
      rw [mapContents, List.map_cons, ← mapContents, List.lookup_cons, List.lookup_cons]
      cases name == e.1 with
      | true => rfl
      | false => exact ih

theorem filter_mapContents (p : String → Bool) :
    (mapContents f files).filter (fun e => p e.1) =
      mapContents f (files.filter fun e => p e.1) := by
  rw [mapContents, mapContents, List.filter_map]
  rfl

theorem insertEntry_mapContents {content : β} :
    insertEntry (mapContents f files) name (f content) =
      mapContents f (insertEntry files name content) := by
  rw [insertEntry, insertEntry, filter_mapContents (fun other => other != name)]
  rfl

end Contents

/-- The files of a directory: each name with its bytes. -/
abbrev DiskFiles : Type :=
  List (String × List UInt8)

namespace DiskFiles

/-- What is asked of a directory. -/
inductive Call where
  | write (name : String) (bytes : List UInt8)
  | append (name : String) (bytes : List UInt8)
  | rename (source target : String)

/-- Where calls were cut off: how many of them were finished, and how many bytes the next one had
written, if it had begun. -/
structure Cut where
  finished : Nat
  written : Option Nat

/-- The files a call is about. -/
def Call.names : Call → List String
  | .write name _ => [name]
  | .append name _ => [name]
  | .rename source target => [source, target]

/-- Do a call. Writing replaces a file, appending creates one that is missing. -/
def Call.apply : Call → DiskFiles → DiskFiles
  | .write name bytes, disk => insertEntry disk name bytes
  | .append name bytes, disk => insertEntry disk name ((disk.lookup name).getD [] ++ bytes)
  | .rename source target, disk =>
      match disk.lookup source with
      | none => disk
      | some bytes => insertEntry (disk.filter fun e => e.1 != source) target bytes

/-- What was done of a call that had written some bytes. -/
def Call.begun (n : Nat) : Call → Option Call
  | .write name bytes => some (.write name (bytes.take n))
  | .append name bytes => some (.append name (bytes.take n))
  | .rename _ _ => none

/-- What is done of calls up to where they stop. -/
def stopped (written : Option Nat) : Nat → List Call → List Call
  | _, [] => []
  | 0, call :: _ => (written.bind call.begun).toList
  | n + 1, call :: calls => call :: stopped written n calls

/-- What is done of calls that may be cut off. -/
def performed (cut : Option Cut) (calls : List Call) : List Call :=
  match cut with
  | none => calls
  | some cut => stopped cut.written cut.finished calls

/-- Do calls in order. -/
def perform (disk : DiskFiles) (calls : List Call) : DiskFiles :=
  calls.foldl (fun disk call => call.apply disk) disk

variable {disk : DiskFiles} {call part : Call} {calls : List Call} {cut : Option Cut}
  {name : String}

@[simp] theorem stopped_nil (written : Option Nat) (n : Nat) : stopped written n [] = [] := by
  cases n <;> rfl

@[simp] theorem perform_nil (disk : DiskFiles) : disk.perform [] = disk := rfl

@[simp] theorem perform_cons (disk : DiskFiles) (call : Call) (calls : List Call) :
    disk.perform (call :: calls) = DiskFiles.perform (call.apply disk) calls := rfl

theorem perform_append (disk : DiskFiles) (calls more : List Call) :
    disk.perform (calls ++ more) = (disk.perform calls).perform more :=
  List.foldl_append

/-- A call changes only the files it is about. -/
theorem lookup_apply (hname : name ∉ call.names) :
    List.lookup name (call.apply disk) = disk.lookup name := by
  cases call with
  | write other bytes => exact lookup_insertEntry_ne _ _ (by simpa [Call.names] using hname)
  | append other bytes => exact lookup_insertEntry_ne _ _ (by simpa [Call.names] using hname)
  | rename source target =>
      obtain ⟨hsource, htarget⟩ : name ≠ source ∧ name ≠ target := by
        simpa [Call.names] using hname
      rw [Call.apply]
      cases disk.lookup source with
      | none => rfl
      | some bytes => exact (lookup_insertEntry_ne _ _ htarget).trans (lookup_filter_ne _ hsource)

theorem lookup_perform (h : ∀ call ∈ calls, name ∉ call.names) :
    List.lookup name (disk.perform calls) = disk.lookup name := by
  induction calls generalizing disk with
  | nil => rfl
  | cons call calls ih =>
      obtain ⟨hcall, hcalls⟩ := List.forall_mem_cons.mp h
      rw [perform_cons, ih hcalls, lookup_apply hcall]

theorem names_of_begun {n : Nat} (h : call.begun n = some part) : part.names = call.names := by
  cases call with
  | write | append =>
      obtain rfl := Option.some.inj h
      rfl
  | rename => cases h

theorem begun_of_mem_stopped {written : Option Nat} {n : Nat}
    (h : part ∈ stopped written n calls) :
    part ∈ calls ∨ ∃ call ∈ calls, ∃ n, call.begun n = some part := by
  induction calls generalizing n with
  | nil => simp at h
  | cons call calls ih =>
      cases n with
      | zero =>
          obtain ⟨n, -, hbegun⟩ := Option.bind_eq_some_iff.mp (Option.mem_toList.mp h)
          exact .inr ⟨call, List.mem_cons_self, n, hbegun⟩
      | succ n =>
          obtain rfl | h := List.mem_cons.mp h
          · exact .inl List.mem_cons_self
          · obtain hmem | ⟨call, hmem, hbegun⟩ := ih h
            · exact .inl (List.mem_cons_of_mem _ hmem)
            · exact .inr ⟨call, List.mem_cons_of_mem _ hmem, hbegun⟩

/-- What is done is a call, or one that had begun. -/
theorem begun_of_mem_performed (h : part ∈ performed cut calls) :
    part ∈ calls ∨ ∃ call ∈ calls, ∃ n, call.begun n = some part := by
  cases cut with
  | none => exact .inl h
  | some cut => exact begun_of_mem_stopped h

theorem lookup_performed (h : ∀ call ∈ calls, name ∉ call.names) :
    List.lookup name (disk.perform (performed cut calls)) = disk.lookup name := by
  refine lookup_perform fun part hpart => ?_
  obtain hmem | ⟨call, hmem, n, hbegun⟩ := begun_of_mem_performed hpart
  · exact h part hmem
  · rw [names_of_begun hbegun]
    exact h call hmem

/-- Calls after others begin when those are finished. -/
theorem stopped_append {written : Option Nat} {n : Nat} (calls more : List Call) :
    stopped written n (calls ++ more) = if n < calls.length then stopped written n calls
      else calls ++ stopped written (n - calls.length) more := by
  induction calls generalizing n with
  | nil => simp
  | cons call calls ih =>
      cases n with
      | zero => simp [stopped]
      | succ n =>
          simp only [List.cons_append, stopped, ih, List.length_cons, Nat.add_lt_add_iff_right,
            Nat.add_sub_add_right]
          split <;> rfl

/-- Of calls and more after them a part of the calls is done, or all of them and a part of the
others. -/
theorem performed_append (cut : Option Cut) (calls more : List Call) :
    (∃ c, cut = some c ∧ c.finished < calls.length ∧
      performed cut (calls ++ more) = performed cut calls) ∨
    ∃ cut', (cut' = none ↔ cut = none) ∧
      performed cut (calls ++ more) = calls ++ performed cut' more := by
  cases cut with
  | none => exact .inr ⟨none, Iff.rfl, rfl⟩
  | some c =>
      by_cases hlt : c.finished < calls.length
      · exact .inl ⟨c, rfl, hlt, (stopped_append calls more).trans (if_pos hlt)⟩
      · refine .inr ⟨some ⟨c.finished - calls.length, c.written⟩, by simp, ?_⟩
        exact (stopped_append calls more).trans (if_neg hlt)

/-! ## Two ways to write -/

/-- Of one append, a front of its bytes is written, if it had begun. -/
theorem performed_append_one (cut : Option Cut) (name : String) (bytes : List UInt8) :
    (cut ≠ none ∧ performed cut [.append name bytes] = []) ∨
    ∃ written, written <+: bytes ∧ (cut = none → written = bytes) ∧
      performed cut [.append name bytes] = [.append name written] := by
  cases cut with
  | none => exact .inr ⟨bytes, List.prefix_rfl, fun _ => rfl, rfl⟩
  | some cut =>
      obtain ⟨finished, written⟩ := cut
      cases finished with
      | succ n => exact .inr ⟨bytes, List.prefix_rfl, by simp, by simp [performed, stopped]⟩
      | zero =>
          cases written with
          | none => exact .inl ⟨Option.some_ne_none _, rfl⟩
          | some n => exact .inr ⟨bytes.take n, List.take_prefix n bytes, by simp, rfl⟩

/-- An append after calls about other files: the file is longer by a front of its bytes. -/
theorem getD_lookup_append {calls : List Call} (hcalls : ∀ call ∈ calls, name ∉ call.names)
    (cut : Option Cut) (bytes : List UInt8) :
    ∃ written, written <+: bytes ∧ (cut = none → written = bytes) ∧
      (written ≠ [] → .append name written ∈ performed cut (calls ++ [.append name bytes])) ∧
      (List.lookup name (disk.perform (performed cut (calls ++ [.append name bytes])))).getD [] =
        (disk.lookup name).getD [] ++ written := by
  obtain ⟨c, hc, -, hdone⟩ | ⟨cut', hcut', hdone⟩ :=
    performed_append cut calls [.append name bytes]
  · refine ⟨[], List.nil_prefix, fun hnone => ?_, fun hne => absurd rfl hne, ?_⟩
    · rw [hc] at hnone
      cases hnone
    · rw [hdone, lookup_performed hcalls, List.append_nil]
  · rw [hdone, perform_append]
    obtain ⟨hcut, hdone'⟩ | ⟨written, hwritten, hall, hdone'⟩ :=
      performed_append_one cut' name bytes
    · refine ⟨[], List.nil_prefix, fun hnone => absurd (hcut'.mpr hnone) hcut,
        fun hne => absurd rfl hne, ?_⟩
      rw [hdone', perform_nil, lookup_perform hcalls, List.append_nil]
    · refine ⟨written, hwritten, fun hnone => hall (hcut'.mpr hnone), fun _ => ?_, ?_⟩
      · rw [hdone']
        exact List.mem_append_right _ (List.mem_singleton_self _)
      · rw [hdone', perform_cons, perform_nil, Call.apply, lookup_insertEntry_self,
          lookup_perform hcalls, Option.getD_some]

/-- Write a file under another name, and move it over. -/
def replace (temporary name : String) (bytes : List UInt8) : List Call :=
  [.write temporary bytes, .rename temporary name]

variable {temporary : String} {bytes : List UInt8}

theorem perform_replace : disk.perform (replace temporary name bytes) =
    insertEntry (disk.filter fun e => e.1 != temporary) name bytes := by
  have hdrop : (insertEntry disk temporary bytes).filter (fun e => e.1 != temporary) =
      disk.filter fun e => e.1 != temporary := by
    simp [insertEntry, List.filter_filter]
  rw [replace, perform_cons, perform_cons, perform_nil, Call.apply, Call.apply,
    lookup_insertEntry_self]
  exact congrArg (fun disk => insertEntry disk name bytes) hdrop

/-- A file is replaced, or at most the other one is written. -/
theorem performed_replace (cut : Option Cut) :
    performed cut (replace temporary name bytes) = replace temporary name bytes ∨
    cut ≠ none ∧ (performed cut (replace temporary name bytes) = [] ∨
      ∃ front, performed cut (replace temporary name bytes) = [.write temporary front]) := by
  cases cut with
  | none => exact .inl rfl
  | some cut =>
      obtain ⟨finished, written⟩ := cut
      match finished, written with
      | 0, none => exact .inr ⟨Option.some_ne_none _, .inl rfl⟩
      | 0, some n => exact .inr ⟨Option.some_ne_none _, .inr ⟨_, rfl⟩⟩
      | 1, none => exact .inr ⟨Option.some_ne_none _, .inr ⟨_, rfl⟩⟩
      | 1, some n => exact .inr ⟨Option.some_ne_none _, .inr ⟨_, rfl⟩⟩
      | n + 2, written => exact .inl (by simp [performed, replace, stopped])

/-- A file that is replaced has its old content or the new one. -/
theorem lookup_replace (hne : name ≠ temporary) (cut : Option Cut) :
    List.lookup name (disk.perform (performed cut (replace temporary name bytes))) = some bytes ∨
    cut ≠ none ∧ List.lookup name
      (disk.perform (performed cut (replace temporary name bytes))) = disk.lookup name := by
  obtain hdone | ⟨hcut, hdone | ⟨front, hdone⟩⟩ :=
    @performed_replace name temporary bytes cut
  · rw [hdone, perform_replace]
    exact .inl (lookup_insertEntry_self _ _ _)
  · rw [hdone]
    exact .inr ⟨hcut, rfl⟩
  · rw [hdone]
    exact .inr ⟨hcut, lookup_insertEntry_ne _ _ hne⟩

end DiskFiles

end Fraisier.Data
