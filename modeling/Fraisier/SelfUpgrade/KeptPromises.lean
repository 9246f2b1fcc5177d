import Fraisier.SelfUpgrade.Promises

/-!
# When an upgrade keeps its promises

Hosts on which calls fail at chosen times show that nothing less than `Separate` will do: each
of its parts is read off one such host. Read `upgrade_promises_iff` first.
-/

namespace Fraisier.SelfUpgrade

open Fraisier.Effect
open Fraisier.Data (Node PathBuf)

/-! ## Hosts on which calls fail at some times -/

/-- A host on which every call fails at some times, a write that fails leaves some bytes, and
the unit does not come up at some times. -/
def hostFailingAt (faults : List Nat) (left : List UInt8) (down : List Nat)
    (fetched : Except String Verified) : Oracle where
  fault time _ := if faults.contains time then some "Input/output error (os error 5)" else none
  left _ := some left
  fetched _ := fetched
  healthy time := !down.contains time

/-- For some calls from a time on nothing fails. -/
def Oracle.Calm (o : Oracle) (time n : Nat) : Prop :=
  ∀ i < n, ∀ c, o.fault (time + i) c = none

theorem Oracle.Calm.after {o : Oracle} {time k m n : Nat} (h : o.Calm time m) (hle : k + n ≤ m) :
    o.Calm (time + k) n := fun i hi c => by
  rw [Nat.add_assoc]
  exact h (k + i) (by omega) c

section Times

variable {faults down : List Nat} {left : List UInt8} {fetched : Except String Verified}

theorem hostFailingAt_calm {time n : Nat} (h : ∀ i < n, time + i ∉ faults) :
    (hostFailingAt faults left down fetched).Calm time n := fun i hi c => by
  simp [hostFailingAt, h i hi]

theorem hostFailingAt_fault {time : Nat} (h : time ∈ faults) (c : UpgradeCall) :
    (hostFailingAt faults left down fetched).fault time c =
      some "Input/output error (os error 5)" := by
  simp [hostFailingAt, h]

end Times

section Calls

variable {o : Oracle} {s : Disk} {path target : PathBuf}

theorem Oracle.guarded_done {α : Type} {c : UpgradeCall} {failed : Disk} {done : α × Disk}
    (h : o.fault s.clock c = none) :
    o.guarded c s none failed done = (.ok done.1, done.2.tick) := by
  rw [guarded, h]

theorem Oracle.guarded_failed {α : Type} {c : UpgradeCall} {failed : Disk} {done : α × Disk}
    {cause : String} (h : o.fault s.clock c = some cause) :
    o.guarded c s none failed done = (.error cause, failed.tick) := by
  rw [guarded, h]

theorem disk_createDirAll (h : ∀ file, s.node path ≠ some (.file file)) :
    disk o (.createDirAll path) s =
      o.guarded (.createDirAll path) s none s ((), s.ensured path) := by
  rw [Disk.ensured]
  cases hnode : s.node path with
  | none => simp only [disk, hnode]
  | some node =>
      cases node with
      | file file => exact absurd hnode (h file)
      | other => simp only [disk, hnode]
      | link target => simp only [disk, hnode]

theorem disk_write {bytes : List UInt8} (h : s.Writable path) :
    disk o (.write path bytes) s = o.guarded (.write path bytes) s none
      ((o.left s.clock).elim s (s.written (s.destination path)))
      ((), s.written (s.destination path) bytes) := by
  simp only [disk]
  obtain hnone | ⟨file, hfile⟩ := h
  · rw [hnone]
  · rw [hfile]

theorem disk_rename {source : PathBuf} {node : Node PathBuf File}
    (hsource : s.node source = some node) (htarget : s.node target ≠ some .other) :
    disk o (.rename source target) s =
      o.guarded (.rename source target) s none s ((), (s.remove source).put target node) := by
  simp only [disk, hsource]

theorem wp_createDirAll_done {Q : Except String Unit → Disk → Prop}
    (hdir : ∀ file, s.node path ≠ some (.file file))
    (hfault : o.fault s.clock (.createDirAll path) = none)
    (hQ : Q (.ok ()) (s.ensured path).tick) :
    wp (disk o) Eq Guarantee.any (ask (.createDirAll path)) Q s := by
  refine wp_ask ?_
  rw [disk_createDirAll hdir, Oracle.guarded_done hfault]
  exact hQ

theorem wp_write_done {bytes : List UInt8} {Q : Except String Unit → Disk → Prop}
    (hwritable : s.Writable path) (hfault : o.fault s.clock (.write path bytes) = none)
    (hQ : Q (.ok ()) (s.written (s.destination path) bytes).tick) :
    wp (disk o) Eq Guarantee.any (ask (.write path bytes)) Q s := by
  refine wp_ask ?_
  rw [disk_write hwritable, Oracle.guarded_done hfault]
  exact hQ

theorem wp_write_failed {bytes left : List UInt8} {cause : String}
    {Q : Except String Unit → Disk → Prop} (hwritable : s.Writable path)
    (hfault : o.fault s.clock (.write path bytes) = some cause)
    (hleft : o.left s.clock = some left)
    (hQ : Q (.error cause) (s.written (s.destination path) left).tick) :
    wp (disk o) Eq Guarantee.any (ask (.write path bytes)) Q s := by
  refine wp_ask ?_
  rw [disk_write hwritable, Oracle.guarded_failed hfault, hleft]
  exact hQ

theorem wp_setPermissions_done {mode : Nat} {node : Node PathBuf File}
    {Q : Except String Unit → Disk → Prop} (hnode : s.node (s.destination path) = some node)
    (hfault : o.fault s.clock (.setPermissions path mode) = none) (hQ : Q (.ok ()) s.tick) :
    wp (disk o) Eq Guarantee.any (ask (.setPermissions path mode)) Q s := by
  refine wp_ask ?_
  simp only [disk, hnode]
  rw [Oracle.guarded_done hfault]
  exact hQ

/-- Where nothing fails, what is no directory is out of the way afterwards. -/
theorem wp_removeFile_done {Q : Except String Unit → Disk → Prop}
    (hother : s.node path ≠ some .other)
    (hfault : o.fault s.clock (.removeFile path) = none) (hQ : ∀ r, Q r (s.remove path).tick) :
    wp (disk o) Eq Guarantee.any (ask (.removeFile path)) Q s := by
  refine wp_removeFile (fun cause hcause => ?_) fun _ => hQ _
  obtain hnone | hdir | hfailed := hcause
  · rw [← Disk.remove_of_none hnone]
    exact hQ _
  · exact absurd hdir hother
  · exact absurd hfault hfailed

/-- A file that cannot be removed stays. -/
theorem wp_removeFile_failed {cause : String} {Q : Except String Unit → Disk → Prop}
    (hfault : o.fault s.clock (.removeFile path) = some cause) (hQ : ∀ r, Q r s.tick) :
    wp (disk o) Eq Guarantee.any (ask (.removeFile path)) Q s := by
  refine wp_ask ?_
  simp only [disk]
  split
  · exact hQ _
  · rw [Oracle.guarded_failed hfault]
    exact hQ _
  · exact hQ _

theorem wp_symlink_done {Q : Except String Unit → Disk → Prop} (hnone : s.node path = none)
    (hfault : o.fault s.clock (.symlink target path) = none)
    (hQ : Q (.ok ()) (s.put path (.link (path.linked target))).tick) :
    wp (disk o) Eq Guarantee.any (ask (.symlink target path)) Q s := by
  refine wp_ask ?_
  simp only [disk, hnone]
  rw [Oracle.guarded_done hfault]
  exact hQ

theorem wp_symlink_failed {cause : String} {Q : Except String Unit → Disk → Prop}
    (hnone : s.node path = none) (hfault : o.fault s.clock (.symlink target path) = some cause)
    (hQ : Q (.error cause) s.tick) :
    wp (disk o) Eq Guarantee.any (ask (.symlink target path)) Q s := by
  refine wp_ask ?_
  simp only [disk, hnone]
  rw [Oracle.guarded_failed hfault]
  exact hQ

theorem wp_rename_done {source : PathBuf} {node : Node PathBuf File}
    {Q : Except String Unit → Disk → Prop} (hsource : s.node source = some node)
    (htarget : s.node target ≠ some .other)
    (hfault : o.fault s.clock (.rename source target) = none)
    (hQ : Q (.ok ()) ((s.remove source).put target node).tick) :
    wp (disk o) Eq Guarantee.any (ask (.rename source target)) Q s := by
  refine wp_ask ?_
  rw [disk_rename hsource htarget, Oracle.guarded_done hfault]
  exact hQ

theorem wp_rename_failed {source : PathBuf} {node : Node PathBuf File} {cause : String}
    {Q : Except String Unit → Disk → Prop} (hsource : s.node source = some node)
    (htarget : s.node target ≠ some .other)
    (hfault : o.fault s.clock (.rename source target) = some cause)
    (hQ : Q (.error cause) s.tick) :
    wp (disk o) Eq Guarantee.any (ask (.rename source target)) Q s := by
  refine wp_ask ?_
  rw [disk_rename hsource htarget, Oracle.guarded_failed hfault]
  exact hQ

end Calls

/-! ## Operations on such hosts -/

section Hosts

variable {o : Oracle} {s : Disk} {layout : Layout} {id : String} {bytes : List UInt8}
variable {plan : Plan}

/-- Where nothing fails, a binary that can be staged is. -/
theorem stage_done (hs : s.Stageable layout id) (hcalm : o.Calm s.clock 3) :
    wp (disk o) Eq Guarantee.any (layout.stage id bytes)
      (fun r s' => r = .ok () ∧
        s' = (s.stagedWith layout id bytes (s.clock + 1)).tick.tick.tick) s := by
  have hclock := s.clock_ensured layout.binDir
  refine wp_bind (wp_createDirAll_done hs.1 (hcalm 0 (by omega) _) ?_)
  refine wp_bind (wp_write_done hs.2 ?_ ?_)
  · rw [Disk.clock_tick, hclock]
    exact hcalm 1 (by omega) _
  have hfile : (s.stagedWith layout id bytes (s.clock + 1)).node
      ((s.stagedWith layout id bytes (s.clock + 1)).destination (layout.stagedPath id)) =
      some (.file ⟨bytes, s.clock + 1⟩) := by
    rw [Disk.destination_stagedPath hs]
    exact Disk.node_stagedWith
  have hwritten : ((s.ensured layout.binDir).tick.written
      ((s.ensured layout.binDir).tick.destination (layout.stagedPath id)) bytes) =
      (s.stagedWith layout id bytes (s.clock + 1)).tick := by
    rw [Disk.stagedWith, ← hclock]
    rfl
  rw [hwritten]
  refine wp_bind (wp_setPermissions_done hfile ?_ (wp_ret.mpr ⟨rfl, rfl⟩))
  have hclock : (s.stagedWith layout id bytes (s.clock + 1)).tick.tick.clock = s.clock + 2 :=
    congrArg (· + 2) hclock
  rw [hclock]
  exact hcalm 2 (by omega) _

/-- Where writing fails, some bytes may be left. -/
theorem stage_cut {left : List UInt8} {cause : String} (hs : s.Stageable layout id)
    (hcalm : o.Calm s.clock 1) (hfault : ∀ c, o.fault (s.clock + 1) c = some cause)
    (hleft : o.left (s.clock + 1) = some left) :
    wp (disk o) Eq Guarantee.any (layout.stage id bytes)
      (fun r s' => (∃ error, r = .error error) ∧
        Keeps [] (s.stagedWith layout id left (s.clock + 1)) s') s := by
  have hclock := s.clock_ensured layout.binDir
  refine wp_bind (wp_createDirAll_done hs.1 (hcalm 0 (by omega) _) ?_)
  rw [← hclock] at hfault hleft
  refine wp_bind (wp_write_failed hs.2 (hfault _) hleft (wp_ret.mpr ⟨⟨_, rfl⟩, ?_⟩))
  rw [Disk.stagedWith, ← hclock]
  exact (Keeps.refl _ _).tick.tick

/-- Where nothing fails, a binary is activated. -/
theorem activate_done (htemporary : s.node layout.temporary ≠ some .other)
    (hcurrent : s.node layout.current ≠ some .other) (hcalm : o.Calm s.clock 3) :
    wp (disk o) Eq Guarantee.any (layout.activate id)
      (fun r s' => r = .ok () ∧ s' = (s.swapped layout id).tick.tick.tick) s := by
  have hpointed : (s.pointed layout id).node layout.current ≠ some .other := by
    rwa [Disk.node_pointed_current]
  refine wp_bind (wp_removeFile_done htemporary (hcalm 0 (by omega) _) fun _ => ?_)
  refine wp_bind (wp_symlink_done Disk.node_remove (hcalm 1 (by omega) _) ?_)
  refine wp_bind (wp_rename_done Disk.node_put hpointed (hcalm 2 (by omega) _) ?_)
  exact wp_ret.mpr ⟨rfl, rfl⟩

/-- Where the temporary link cannot be made, it is gone. -/
theorem activate_cut_symlink {cause : String} (htemporary : s.node layout.temporary ≠ some .other)
    (hcalm : o.Calm s.clock 1) (hfault : ∀ c, o.fault (s.clock + 1) c = some cause) :
    wp (disk o) Eq Guarantee.any (layout.activate id)
      (fun r s' => (∃ error, r = .error error) ∧ Keeps [] (s.cleared layout) s') s := by
  refine wp_bind (wp_removeFile_done htemporary (hcalm 0 (by omega) _) fun _ => ?_)
  refine wp_bind (wp_symlink_failed Disk.node_remove (hfault _) (wp_ret.mpr ⟨⟨_, rfl⟩, ?_⟩))
  exact (Keeps.refl _ (s.cleared layout)).tick.tick

/-- Where the temporary link can be neither moved nor removed, it stays. -/
theorem activate_cut_rename {cause : String} (htemporary : s.node layout.temporary ≠ some .other)
    (hcurrent : s.node layout.current ≠ some .other) (hcalm : o.Calm s.clock 2)
    (hfault : ∀ c, o.fault (s.clock + 2) c = some cause ∧ o.fault (s.clock + 3) c = some cause) :
    wp (disk o) Eq Guarantee.any (layout.activate id)
      (fun r s' => (∃ error, r = .error error) ∧ Keeps [] (s.pointed layout id) s') s := by
  have hpointed : (s.pointed layout id).node layout.current ≠ some .other := by
    rwa [Disk.node_pointed_current]
  refine wp_bind (wp_removeFile_done htemporary (hcalm 0 (by omega) _) fun _ => ?_)
  refine wp_bind (wp_symlink_done Disk.node_remove (hcalm 1 (by omega) _) ?_)
  refine wp_bind (wp_rename_failed Disk.node_put hpointed (hfault _).1 ?_)
  refine wp_bind (wp_removeFile_failed (hfault _).2 fun _ => wp_ret.mpr ⟨⟨_, rfl⟩, ?_⟩)
  exact (Keeps.refl _ (s.pointed layout id)).tick.tick.tick.tick

theorem bringUp_done (hfault : o.fault s.clock .restart = none) :
    wp (disk o) Eq Guarantee.any plan.bringUp
      (fun up s' => up = o.healthy (s.clock + 1) ∧ s' = s.tick.tick) s := by
  refine wp_bind (wp_ask ?_)
  simp only [disk]
  rw [Oracle.guarded_done hfault]
  exact wp_ask ⟨rfl, rfl⟩

section Upgrade

variable {verified : Verified} {Q : ApplyOutcome → Disk → Prop}

/-- An upgrade up to staging. -/
theorem apply_begins (hfetched : o.fetched s.clock = .ok verified)
    (hsystemd : plan.systemdAvailable = true) (hlinked : s.Linked plan.layout)
    (hcalm : o.Calm s.clock 2)
    (hQ : wp (disk o) Eq Guarantee.any
      (plan.layout.stage (plan.newId verified) verified.bytes)
      (fun r s' => match r with
        | .error error => Q (.abortedBeforeSwap s!"io error: {error}") s'
        | .ok () => wp (disk o) Eq Guarantee.any
            (plan.swap (plan.newId verified) (s.activeName plan.layout)) Q s')
      s.tick.tick) : wp (disk o) Eq Guarantee.any plan.apply Q s := by
  refine wp_ite (fun h => absurd hsystemd (by simpa using h)) fun _ => ?_
  refine wp_bind (wp_ask ?_)
  simp only [disk, hfetched]
  refine wp_bind (wp_post (fun r s₁ h => ?_) (active_spec o s.tick plan.layout))
  obtain ⟨rfl, -, hactive⟩ := h
  obtain rfl := hactive hlinked (hcalm 1 (by omega) _)
  refine wp_bind (wp_post (fun r s₂ h => ?_) hQ)
  cases r with
  | error error => exact wp_ret.mpr h
  | ok => exact h

/-- An upgrade up to the swap. -/
theorem apply_stages (hfetched : o.fetched s.clock = .ok verified)
    (hsystemd : plan.systemdAvailable = true) (hlinked : s.Linked plan.layout)
    (hs : s.Stageable plan.layout (plan.newId verified))
    (hcalm : o.Calm s.clock 5)
    (hQ : wp (disk o) Eq Guarantee.any
      (plan.swap (plan.newId verified) (s.activeName plan.layout)) Q
      (s.withNew plan verified).tick.tick.tick.tick.tick) :
    wp (disk o) Eq Guarantee.any plan.apply Q s := by
  have hs₂ : s.tick.tick.Stageable plan.layout (plan.newId verified) := by
    rwa [Disk.stageable_tick, Disk.stageable_tick]
  refine apply_begins hfetched hsystemd hlinked (hcalm.after (by omega : 0 + 2 ≤ 5)) ?_
  refine wp_post (fun r s₁ h => ?_) (stage_done hs₂ (hcalm.after (by omega : 2 + 3 ≤ 5)))
  obtain ⟨rfl, rfl⟩ := h
  rw [Disk.stagedWith_tick, Disk.stagedWith_tick]
  exact hQ

theorem Promised.of_wp {P : Prop} (h : Promised o plan s)
    (hwp : wp (disk o) Eq Guarantee.any plan.apply
      (fun r s' => Kept plan.layout s (o.fetched s.clock) r s' → P) s) : P :=
  (wp_exec hwp []).1 h.1

end Upgrade

end Hosts

/-! ## What is broken otherwise -/

section Broken

variable {s : Disk} {plan : Plan} {verified : Verified}
variable (hpromised : ∀ o : Oracle, o.fetched s.clock = .ok verified → Promised o plan s)
variable (hsystemd : plan.systemdAvailable = true) (hlinked : s.Linked plan.layout)
variable (hs : s.Stageable plan.layout (plan.newId verified))
include hpromised hsystemd hlinked hs

/-- A write that fails shows that the new binary is not written where `current` leads. -/
theorem apart_of_promised :
    s.destination plan.layout.current ≠ s.newPath plan verified := by
  intro hself
  have hs₂ : s.tick.tick.Stageable plan.layout (plan.newId verified) := by
    rwa [Disk.stageable_tick, Disk.stageable_tick]
  have hleft : ∀ left, some left = s.reached plan.layout := by
    intro left
    have hcalm : ∀ i < 3, s.clock + i ∉ [s.clock + 3] := fun i hi => by
      rw [List.mem_singleton]
      omega
    have hcalm := @hostFailingAt_calm [s.clock + 3] [] left (.ok verified) _ _ hcalm
    refine (hpromised (hostFailingAt [s.clock + 3] left [] (.ok verified)) rfl).of_wp
      (apply_begins rfl hsystemd hlinked (hcalm.after (by omega : 0 + 2 ≤ 3)) ?_)
    refine wp_post (fun r s₁ h => ?_) (stage_cut hs₂ (hcalm.after (by omega : 2 + 1 ≤ 3))
      (hostFailingAt_fault List.mem_cons_self) rfl)
    obtain ⟨⟨error, rfl⟩, hkeeps⟩ := h
    intro hkept
    rw [Disk.stagedWith_tick, Disk.stagedWith_tick] at hkeeps
    rw [← (hkept.aborted _ rfl).1, hkeeps.reached]
    exact (Disk.reached_stagedWith_self hs hself).symm
  exact nomatch (hleft []).trans (hleft [0]).symm

omit hpromised hsystemd in
/-- With the new binary staged elsewhere, `current` is no directory. -/
theorem current_withNew
    (hapart : s.destination plan.layout.current ≠ s.newPath plan verified) :
    (s.withNew plan verified).node plan.layout.current ≠ some .other := by
  intro h
  have hcurrent : (s.withNew plan verified).node plan.layout.current =
      s.node plan.layout.current := Disk.node_stagedWith_current hs hapart
  exact absurd (hlinked _ (hcurrent.symm.trans h)) (by simp [Node.isLink])

section Swaps

variable {P : Prop} {o : Oracle}

/-- What has to be so for a swap to keep what was promised. -/
theorem of_promised_swap (hfetched : o.fetched s.clock = .ok verified) (hcalm : o.Calm s.clock 5)
    (hswap : wp (disk o) Eq Guarantee.any
      (plan.swap (plan.newId verified) (s.activeName plan.layout))
      (fun r s' => Kept plan.layout s (.ok verified) r s' → P)
      { s.withNew plan verified with clock := s.clock + 5 }) : P := by
  have hclock : (s.withNew plan verified).clock = s.clock := s.clock_ensured plan.layout.binDir
  refine (hpromised o hfetched).of_wp (apply_stages hfetched hsystemd hlinked hs hcalm ?_)
  rw [hfetched]
  have hticks : (s.withNew plan verified).tick.tick.tick.tick.tick =
      { s.withNew plan verified with clock := s.clock + 5 } := by
    rw [← hclock]
    rfl
  rw [hticks]
  exact hswap

variable (htemporary : s.node plan.layout.temporary ≠ some .other)
include htemporary

/-- A temporary link that cannot be made shows that nothing hangs on the one before. -/
theorem cleared_of_promised :
    ((s.withNew plan verified).cleared plan.layout).reached plan.layout =
      s.reached plan.layout := by
  have hcalm : ∀ i < 6, s.clock + i ∉ [s.clock + 6] := fun i hi => by
    rw [List.mem_singleton]
    omega
  have hcalm := @hostFailingAt_calm [s.clock + 6] [] [] (.ok verified) _ _ hcalm
  refine of_promised_swap hpromised hsystemd hlinked hs rfl (hcalm.after (by omega : 0 + 5 ≤ 6)) ?_
  refine wp_bind (wp_post (fun r s₂ h => ?_) (activate_cut_symlink
    (fun h => htemporary (Disk.other_of_stagedWith h)) (hcalm.after (by omega : 5 + 1 ≤ 6))
    (hostFailingAt_fault List.mem_cons_self)))
  obtain ⟨⟨error, rfl⟩, hkeeps⟩ := h
  refine wp_ret.mpr fun hkept => ?_
  rw [← (hkept.aborted _ rfl).1, hkeeps.reached]
  rfl

/-- A temporary link that is left shows that nothing hangs on it. -/
theorem pointed_of_promised :
    ((s.withNew plan verified).pointed plan.layout (plan.newId verified)).reached plan.layout =
      s.reached plan.layout := by
  have hapart := apart_of_promised hpromised hsystemd hlinked hs
  have hcalm : ∀ i < 7, s.clock + i ∉ [s.clock + 7, s.clock + 8] := fun i hi => by
    simp only [List.mem_cons, List.not_mem_nil, or_false]
    omega
  have hcalm := @hostFailingAt_calm [s.clock + 7, s.clock + 8] [] [] (.ok verified) _ _ hcalm
  refine of_promised_swap hpromised hsystemd hlinked hs rfl (hcalm.after (by omega : 0 + 5 ≤ 7)) ?_
  refine wp_bind (wp_post (fun r s₂ h => ?_) (activate_cut_rename
    (fun h => htemporary (Disk.other_of_stagedWith h))
    (current_withNew hlinked hs hapart) (hcalm.after (by omega : 5 + 2 ≤ 7))
    fun c => ⟨hostFailingAt_fault (by simp) c, hostFailingAt_fault (by simp) c⟩))
  obtain ⟨⟨error, rfl⟩, hkeeps⟩ := h
  refine wp_ret.mpr fun hkept => ?_
  rw [← (hkept.aborted _ rfl).1, hkeeps.reached]
  rfl

/-- Where nothing fails, the new binary is swapped in. -/
theorem of_promised_swapped {P : Prop} (down : List Nat)
    (hup : ∀ s₁, s₁.entries = ((s.withNew plan verified).swapped plan.layout
        (plan.newId verified)).entries → s₁.clock = s.clock + 10 →
      wp (disk (hostFailingAt [] [] down (.ok verified))) Eq Guarantee.any
        (match !down.contains (s.clock + 9) with
        | true => plan.commit (plan.newId verified)
        | false => plan.revert (plan.newId verified) (s.activeName plan.layout))
        (fun r s' => Kept plan.layout s (.ok verified) r s' → P) s₁) : P := by
  have hapart := apart_of_promised hpromised hsystemd hlinked hs
  have hcalm := @hostFailingAt_calm [] down [] (.ok verified) s.clock 9 fun _ _ => by simp
  refine of_promised_swap hpromised hsystemd hlinked hs rfl (hcalm.after (by omega : 0 + 5 ≤ 9)) ?_
  refine wp_bind (wp_post (fun r s₂ h => ?_) (activate_done
    (fun h => htemporary (Disk.other_of_stagedWith h))
    (current_withNew hlinked hs hapart) (hcalm.after (by omega : 5 + 3 ≤ 9))))
  obtain ⟨rfl, rfl⟩ := h
  refine wp_bind (wp_post (fun up s₃ h => ?_) (bringUp_done (hcalm 8 (by omega) _)))
  obtain ⟨rfl, rfl⟩ := h
  exact hup _ rfl rfl

/-- A commit shows that `current` leads to the new bytes, in a file that is not pruned. -/
theorem swapped_of_promised :
    ((s.withNew plan verified).swapped plan.layout (plan.newId verified)).reached plan.layout =
        some verified.bytes ∧
      ((s.withNew plan verified).swapped plan.layout (plan.newId verified)).destination
        plan.layout.current ∉ ((s.withNew plan verified).swapped plan.layout
          (plan.newId verified)).gone plan.layout plan.keep := by
  refine of_promised_swapped hpromised hsystemd hlinked hs htemporary [] fun s₁ hentries _ => ?_
  obtain ⟨entries, clock⟩ := s₁
  obtain rfl : entries = _ := hentries
  refine wp_bind (wp_post (fun r s₂ hpruned => ?_)
    (prune_spec (hostFailingAt [] [] [] (.ok verified)) _ plan.layout plan.keep))
  have hend : s₂.reached plan.layout = some verified.bytes → _ := fun hreached =>
    hpruned.reached_of_reached (by simp [Oracle.Prunes, hostFailingAt])
      ⟨_, Disk.node_swapped_current⟩ hreached
  cases r with
  | error error =>
      refine wp_ret.mpr fun hkept => ?_
      obtain ⟨_, ⟨⟩, hreached⟩ := hkept.committed _ _ rfl
      exact hend hreached
  | ok removed =>
      refine wp_ret.mpr fun hkept => ?_
      obtain ⟨_, ⟨⟩, hreached⟩ := hkept.committed _ _ rfl
      exact hend hreached

/-- A new binary that does not come up shows that the link leads back. -/
theorem back_of_promised (prior : String) (hprior : s.activeName plan.layout = some prior) :
    ((s.withNew plan verified).swapped plan.layout prior).reached plan.layout =
      s.reached plan.layout := by
  have hcalm := @hostFailingAt_calm [] [s.clock + 9] [] (.ok verified) (s.clock + 10) 4
    fun _ _ => by simp
  refine of_promised_swapped hpromised hsystemd hlinked hs htemporary [s.clock + 9]
    fun s₁ hentries hclock => ?_
  obtain ⟨entries, clock⟩ := s₁
  obtain rfl : entries = _ := hentries
  obtain rfl : clock = _ := hclock
  rw [hprior]
  simp only [List.contains_cons, beq_self_eq_true, Bool.true_or, Bool.not_true]
  refine wp_bind (wp_post (fun r s₂ h => ?_) (activate_done
    (fun h => nomatch Disk.node_swapped_temporary.symm.trans h)
    (fun h => nomatch Disk.node_swapped_current.symm.trans h)
    (hcalm.after (by omega : 0 + 3 ≤ 4))))
  obtain ⟨rfl, rfl⟩ := h
  refine wp_bind (wp_post (fun up s₃ h => ?_) (bringUp_done (hcalm 3 (by omega) _)))
  obtain ⟨rfl, rfl⟩ := h
  have hhealthy : (hostFailingAt [] [] [s.clock + 9] (.ok verified)).healthy (s.clock + 14) =
      true := by simp [hostFailingAt]
  refine wp_ite (fun _ => ?_) fun h => absurd hhealthy h
  refine wp_bind (wp_ask (wp_ret.mpr fun hkept => ?_))
  rw [← hkept.reverted _ _ _ rfl]
  exact Disk.keeps_swapped.reached.symm

end Swaps

end Broken

/-- Under every failure, an upgrade does what its outcome says if and only if the new binary has
a place of its own, where it comes to be staged at all. -/
theorem upgrade_promises_iff (plan : Plan) (s : Disk) (fetched : Except String Verified) :
    (∀ o : Oracle, o.fetched s.clock = fetched → Promised o plan s) ↔
      ∀ verified, fetched = .ok verified → plan.systemdAvailable = true →
        s.Linked plan.layout → s.Stageable plan.layout (plan.newId verified) →
          s.Separate plan verified := by
  constructor
  · rintro hpromised verified rfl hsystemd hlinked hs
    refine ⟨apart_of_promised hpromised hsystemd hlinked hs, fun htemporary => ?_⟩
    obtain ⟨hleads, hstays⟩ :=
      swapped_of_promised hpromised hsystemd hlinked hs htemporary
    exact
      { cleared := cleared_of_promised hpromised hsystemd hlinked hs htemporary
        pointed := pointed_of_promised hpromised hsystemd hlinked hs htemporary
        leads := hleads
        stays := hstays
        back := back_of_promised hpromised hsystemd hlinked hs htemporary }
  · rintro hseparate o rfl
    exact ⟨(wp_exec (apply_kept hseparate) []).1, (apply_reports plan).exec (disk o) [] s⟩

/-- A binary staged under the name of the active one is reverted to itself. -/
theorem reverts_to_new : ¬∀ (o : Oracle) (plan : Plan) (s : Disk), Promised o plan s := by
  intro h
  have hreverted : (upgrade (hostUnlessAt [10]) (planFor "1.0.0") installed).value =
      .reverted "1.0.0" "1.0.0" "new binary '1.0.0' failed health-check; reverted to '1.0.0'" := by
    decide +kernel
  have hbefore : installed.reached (planFor "1.0.0").layout = some [1] := by decide +kernel
  have hafter : (upgrade (hostUnlessAt [10]) (planFor "1.0.0") installed).final.reached
      (planFor "1.0.0").layout = some [2] := by decide +kernel
  have hreached := (h _ _ _).1.reverted _ _ _ hreverted
  exact nomatch hafter.symm.trans (hreached.trans hbefore)

end Fraisier.SelfUpgrade
