import Csap.Descriptors
import Csap.LocalCalls

/-! Descriptors and record locks over a command: what a function opens it closes again, once, and
the locks it takes are given up. -/

namespace Csap.Balance

open Prog Descriptors

section table

variable {File : Type}

def answers (g : Descriptors File LockType) : (c : Call) → c.Reply → Bool
  | .file (.openPath _ _ _), .ok fd | .file (.mkstemp _), (.ok fd, _) | .file (.opendir _), .ok fd =>
    0 ≤ fd && (g.fds fd).isNone
  | _, _ => true

def held : LockType → Option LockType
  | .unlck => none
  | type => some type

variable [DecidableEq File]

/-- A descriptor and its locks are gone after `close`, whatever it reports. The file a path names
is given by the number of files opened before it. -/
def after (found : Nat → File) (g : Descriptors File LockType) :
    (c : Call) → c.Reply → Descriptors File LockType
  | .file (.openPath _ _ _), .ok fd | .file (.mkstemp _), (.ok fd, _) | .file (.opendir _), .ok fd =>
    g.openAs fd (found g.opened)
  | .file (.close fd), _ | .file (.closedir fd), _ => g.close fd
  | .file (.setlk fd type start len), .ok _ => g.lock fd start len (held type)
  | _, _ => g

def kernel (found : Nat → File) : Typestate Call.Reply (Descriptors File LockType) where
  allowed g
    | .file (.close fd) | .file (.closedir fd) => g.fds fd ≠ none
    | _ => True
  expects g c r := answers g c r = true
  next := after found

end table

@[reducible] def Quiet : Call → Prop
  | .file (.openPath _ _ _) | .file (.mkstemp _) | .file (.opendir _) => False
  | .file (.close _) | .file (.closedir _) | .file (.setlk _ _ _ _) => False
  | _ => True

instance quiet_judged : Judged Quiet where
  admits
    | .openPath _ | .mkstemp | .opendir | .close | .closedir | .setlk _ => false
    | _ => true
  sound := by
    rintro (c | c | c | c | c | c) <;> cases c <;> simp

section rules

variable {File : Type} [DecidableEq File] {found : Nat → File}
  {g₀ g : Descriptors File LockType} {own : List Int} {fd : Int} {α : Type}

theorem wp_quiet {p : Sys α} {Q : α → Descriptors File LockType → Prop} (quiet : p.Calls Quiet)
    (hQ : ∀ a, Q a g) : wp (kernel found) p Q g := by
  apply quiet.wp ?_ hQ
  intro c calm
  cases c with
  | file c =>
    cases c with
    | openPath path flags mode => exact absurd calm id
    | mkstemp template => exact absurd calm id
    | opendir path => exact absurd calm id
    | close fd => exact absurd calm id
    | closedir dir => exact absurd calm id
    | setlk fd type start len => exact absurd calm id
    | _ => exact ⟨trivial, fun _ => rfl⟩
  | _ => exact ⟨trivial, fun _ => rfl⟩

theorem wp_open {path : CStr} {flags : OpenFlags} {mode : Nat} {k : SysResult Int → Sys α}
    {Q : α → Descriptors File LockType → Prop} (h : Holding found g₀ own g)
    (failed : ∀ e, wp (kernel found) (k (.error e)) Q g)
    (opened : ∀ fd g, 0 ≤ fd → fd ∉ own → Holding found g₀ (fd :: own) g →
      wp (kernel found) (k (.ok fd)) Q g) :
    wp (kernel found) (fileCall (.openPath path flags mode) >>= k) Q g := by
  apply wp_call trivial
  intro r may
  cases r with
  | error e => exact failed e
  | ok fd =>
    obtain ⟨positive, new⟩ : 0 ≤ fd ∧ g.fds fd = none := by simpa [kernel, answers] using may
    exact opened fd _ positive (fun member => h.isOpen member new) (h.opens new)

theorem wp_lock {type : LockType} {start len : Int} {Q : SysResult Unit → Descriptors File LockType → Prop}
    (h : Holding found g₀ own g) (member : fd ∈ own) (hQ : ∀ r g, Holding found g₀ own g → Q r g) :
    wp (kernel found) (setLock fd type start len) Q g := by
  refine ⟨trivial, ?_⟩
  intro r _
  cases r with
  | error e => exact hQ _ _ h
  | ok _ => exact hQ _ _ (h.locks member)

theorem wp_close {k : SysResult Unit → Sys α} {Q : α → Descriptors File LockType → Prop}
    (h : Holding found g₀ (fd :: own) g)
    (next : ∀ r g, Holding found g₀ own g → wp (kernel found) (k r) Q g) :
    wp (kernel found) (fileCall (.close fd) >>= k) Q g :=
  wp_call (h.isOpen List.mem_cons_self) fun r _ => next r _ h.closes

end rules

section transfers

variable {File : Type} [DecidableEq File] {found : Nat → File}
  {g₀ g : Descriptors File LockType} {fd lockFd : Int} {texts : Texts}

/-- The descriptors `receive_into_file` has open. -/
def receiving (fd lockFd : Int) : List Int :=
  (if 0 ≤ fd ∧ fd ≠ lockFd then [fd] else []) ++ if 0 ≤ lockFd then [lockFd] else []

theorem wp_receiveCleanup {target : Target} {tempPath : CStr} {existed : Bool} {result : SysResult Nat}
    {Q : Unit → Descriptors File LockType → Prop} (h : Holding found g₀ (receiving fd lockFd) g)
    (hQ : ∀ g, Holding found g₀ [] g → Q () g) :
    wp (kernel found) (receiveCleanup target fd lockFd tempPath existed result) Q g := by
  have removed : ∀ {g}, Holding found g₀ [] g → wp (kernel found) (do
      when (tempPath ≠ []) do
        let _ ← fileCall (.unlink tempPath)
      when (!result.isOk ∧ !existed) do
        let _ ← fileCall (.unlink target.path)) Q g := by
    intro g closed
    exact wp_quiet (calls_within rfl) fun _ => hQ g closed
  have unlocked : ∀ {g}, Holding found g₀ (if 0 ≤ lockFd then [lockFd] else []) g →
      wp (kernel found) (do
        when (0 ≤ lockFd) do
          let _ ← releaseLock lockFd 0 0
          let _ ← fileCall (.close lockFd)
        when (tempPath ≠ []) do
          let _ ← fileCall (.unlink tempPath)
        when (!result.isOk ∧ !existed) do
          let _ ← fileCall (.unlink target.path)) Q g := by
    intro g held
    apply wp_bind.mpr
    rw [wp_when]
    constructor
    · intro positive
      rw [if_pos positive] at held
      apply wp_bind.mpr
      apply wp_lock held List.mem_cons_self
      intro _ g held
      exact wp_close held fun _ g closed => removed closed
    · intro negative
      rw [if_neg negative] at held
      exact removed held
  unfold receiveCleanup
  apply wp_bind.mpr
  rw [wp_when]
  constructor
  · intro separate
    rw [receiving, if_pos separate] at h
    exact wp_close h fun _ g held => unlocked held
  · intro shared
    rw [receiving, if_neg shared] at h
    exact unlocked h

theorem receiving_one (positive : 0 ≤ fd) : receiving fd fd = [fd] := by
  simp [receiving, positive]

theorem receiving_temp (positive : 0 ≤ fd) : receiving fd (-1) = [fd] := by
  have other : fd ≠ -1 := by omega
  simp [receiving, positive, other]

theorem receiving_lock (positive : 0 ≤ lockFd) : receiving (-1) lockFd = [lockFd] := by
  simp [receiving, positive]

theorem receiving_both (positive : 0 ≤ fd) (other : fd ≠ lockFd) (locked : 0 ≤ lockFd) :
    receiving fd lockFd = [fd, lockFd] := by
  simp [receiving, positive, other, locked]

/-- After `openTarget`: what the record names is open, and nothing else if it has failed. -/
def Opened (found : Nat → File) (g₀ : Descriptors File LockType)
    (r : Except (Errno × CStr) Receiving) (g : Descriptors File LockType) : Prop :=
  match r with
  | .error _ => Holding found g₀ [] g
  | .ok into => 0 ≤ into.lockFd ∧ (into.tempPath ≠ [] → 0 ≤ into.fd ∧ into.fd ≠ into.lockFd) ∧
      Holding found g₀ (receiving into.fd into.lockFd) g

theorem wp_openTempForUpload {destPath : CStr}
    {Q : SysResult Int × CStr → Descriptors File LockType → Prop} (h : Holding found g₀ [] g)
    (failed : ∀ e tempPath, Q (.error e, tempPath) g)
    (opened : ∀ fd tempPath g, 0 ≤ fd → Holding found g₀ [fd] g → Q (.ok fd, tempPath) g) :
    wp (kernel found) (openTempForUpload destPath) Q g := by
  unfold openTempForUpload
  dsimp only
  apply wp_ite.mpr
  refine ⟨fun _ => failed _ _, fun _ => ?_⟩
  apply wp_call trivial
  intro allocated _
  apply wp_ite.mpr
  refine ⟨fun _ => failed _ _, fun _ => ?_⟩
  apply wp_ite.mpr
  refine ⟨fun _ => failed _ _, fun _ => ?_⟩
  refine ⟨trivial, ?_⟩
  intro r may
  obtain ⟨fd | fd, tempPath⟩ := r
  · exact failed _ _
  · obtain ⟨positive, new⟩ : 0 ≤ fd ∧ g.fds fd = none := by simpa [kernel, answers, after] using may
    exact opened fd tempPath _ positive (h.opens new)

theorem wp_openTarget {target : Target} {existed : Bool} (h : Holding found g₀ [] g) :
    wp (kernel found) (openTarget texts target existed) (Opened found g₀) g := by
  have aborted : ∀ {fd g tempPath msg e}, Holding found g₀ (receiving fd (-1)) g →
      wp (kernel found) (do
        receiveCleanup target fd (-1) tempPath existed (.error e)
        return .error (e, msg)) (Opened found g₀) g := by
    intro fd g tempPath msg e held
    apply wp_bind.mpr
    exact wp_receiveCleanup held fun _ closed => closed
  unfold openTarget
  apply wp_ite.mpr
  constructor
  · intro _
    apply wp_open h
    · intro e
      exact aborted h
    · intro fd g positive _ held
      refine ⟨positive, fun impossible => absurd rfl impossible, ?_⟩
      rw [receiving_one positive]
      exact held
  · intro _
    apply wp_bind.mpr
    apply wp_openTempForUpload h
    · intro e tempPath
      exact aborted h
    · intro fd tempPath g positive held
      apply wp_open held
      · intro e
        apply aborted
        rw [receiving_temp positive]
        exact held
      · intro lockFd g locked new both
        have other : fd ≠ lockFd := by
          intro same
          exact new (same ▸ List.mem_cons_self)
        refine ⟨locked, fun _ => ⟨positive, other⟩, ?_⟩
        rw [receiving_both positive other locked]
        exact both.perm (List.Perm.swap fd lockFd [])

/-- What `replaceTarget` leaves open. -/
def Replaced (found : Nat → File) (g₀ : Descriptors File LockType) (lockFd : Int)
    (r : Except (Errno × CStr) Unit) (g : Descriptors File LockType) : Prop :=
  match r with
  | .error _ => Holding found g₀ [] g
  | .ok () => Holding found g₀ [lockFd] g

theorem wp_replaceTarget {target : Target} {into : Receiving} {destMode : Nat} {existed : Bool}
    (positive : 0 ≤ into.fd) (other : into.fd ≠ into.lockFd) (locked : 0 ≤ into.lockFd)
    (h : Holding found g₀ [into.fd, into.lockFd] g) :
    wp (kernel found) (replaceTarget texts target into destMode existed)
      (Replaced found g₀ into.lockFd) g := by
  have aborted : ∀ {fd g tempPath msg e}, Holding found g₀ (receiving fd into.lockFd) g →
      wp (kernel found) (do
        receiveCleanup target fd into.lockFd tempPath existed (.error e)
        return .error (e, msg)) (Replaced found g₀ into.lockFd) g := by
    intro fd g tempPath msg e held
    apply wp_bind.mpr
    exact wp_receiveCleanup held fun _ closed => closed
  apply wp_call trivial
  intro moded _
  cases moded with
  | error e =>
    apply aborted
    rw [receiving_both positive other locked]
    exact h
  | ok _ =>
  apply wp_close h
  intro closed g held
  have rest : Holding found g₀ (receiving (-1) into.lockFd) g := by
    rw [receiving_lock locked]
    exact held
  cases closed with
  | error e => exact aborted rest
  | ok _ =>
  apply wp_call trivial
  intro renamed _
  cases renamed with
  | error e => exact aborted rest
  | ok _ => exact held

theorem wp_receiveIntoFile {target : Target} (h : Holding found g₀ [] g) :
    wp (kernel found) (receiveIntoFile texts target) (fun _ g => Holding found g₀ [] g) g := by
  have exits : ∀ {fd lockFd g tempPath existed result} {r : SysResult Nat × CStr},
      Holding found g₀ (receiving fd lockFd) g → wp (kernel found) (do
        receiveCleanup target fd lockFd tempPath existed result
        return r) (fun _ g => Holding found g₀ [] g) g := by
    intro fd lockFd g tempPath existed result r held
    apply wp_bind.mpr
    exact wp_receiveCleanup held fun _ closed => closed
  apply wp_call trivial
  intro destStat _
  apply wp_bind.mpr
  apply wp_mono (wp_openTarget h)
  intro r g opened
  cases r with
  | error failure => exact opened
  | ok into =>
  obtain ⟨locked, separate, held⟩ := opened
  have member : into.lockFd ∈ receiving into.fd into.lockFd := by simp [receiving, locked]
  apply wp_bind.mpr
  apply wp_lock held member
  intro r g held
  cases r with
  | error e => exact exits held
  | ok _ =>
  apply wp_bind.mpr
  refine wp_quiet (calls_within rfl) ?_
  intro _
  apply wp_bind.mpr
  refine wp_quiet (calls_within rfl) ?_
  intro r
  obtain ⟨e | n, msg⟩ := r
  · apply wp_bind.mpr
    apply wp_receiveCleanup held
    intro g closed
    apply wp_ite.mpr
    exact ⟨fun _ => closed, fun _ => closed⟩
  · apply wp_ite.mpr
    refine ⟨fun _ => exits held, fun named => ?_⟩
    obtain ⟨positive, other⟩ := separate named
    rw [receiving_both positive other locked] at held
    apply wp_bind.mpr
    apply wp_mono (wp_replaceTarget positive other locked held)
    intro r g replaced
    cases r with
    | error failure => exact replaced
    | ok _ =>
      apply exits
      rw [receiving_lock locked]
      exact replaced

theorem wp_sendFileUnlock {offset : Int} {Q : Unit → Descriptors File LockType → Prop}
    (h : Holding found g₀ [fd] g) (hQ : ∀ g, Holding found g₀ [] g → Q () g) :
    wp (kernel found) (sendFileUnlock fd offset) Q g := by
  apply wp_bind.mpr
  apply wp_lock h List.mem_cons_self
  intro _ g held
  exact wp_close held fun _ g closed => hQ g closed

theorem wp_sendFile {path : CStr} {offset : Int} {dataCode endCode : UInt8}
    (h : Holding found g₀ [] g) :
    wp (kernel found) (sendFile texts path offset dataCode endCode)
      (fun _ g => Holding found g₀ [] g) g := by
  apply wp_open h
  · intro e
    exact h
  intro fd g positive _ held
  have exits : ∀ {offset g} {r : SysResult Nat × CStr}, Holding found g₀ [fd] g →
      wp (kernel found) (do
        sendFileUnlock fd offset
        return r) (fun _ g => Holding found g₀ [] g) g := by
    intro offset g r held
    apply wp_bind.mpr
    exact wp_sendFileUnlock held fun _ closed => closed
  apply wp_bind.mpr
  apply wp_lock held List.mem_cons_self
  intro r g held
  cases r with
  | error e => exact wp_close held fun _ g closed => closed
  | ok _ =>
  apply wp_call trivial
  intro statbuf _
  cases statbuf with
  | error e => exact exits held
  | ok statbuf =>
  apply wp_ite.mpr
  refine ⟨fun _ => exits held, fun _ => ?_⟩
  dsimp only
  apply wp_bind.mpr
  refine wp_quiet (calls_within rfl) ?_
  intro _
  apply wp_bind.mpr
  refine wp_quiet (calls_within rfl) ?_
  intro sent
  cases sent with
  | error e => exact exits held
  | ok n => exact exits held

theorem wp_executeTransferCopy {srcPath destPath : CStr} (h : Holding found g₀ [] g) :
    wp (kernel found) (executeTransferCopy srcPath destPath)
      (fun _ g => Holding found g₀ [] g) g := by
  apply wp_call trivial
  intro _ _
  apply wp_call trivial
  intro originalEuid _
  apply wp_call trivial
  intro raised _
  cases raised with
  | error e => exact h
  | ok _ =>
  apply wp_open h
  · intro e
    apply wp_call trivial
    intro restored _
    cases restored with
    | error e => exact h
    | ok _ => exact h
  intro srcFd g _ _ source
  apply wp_call trivial
  intro restored _
  cases restored with
  | error e => exact wp_close source fun _ g closed => closed
  | ok _ =>
  apply wp_call trivial
  intro srcStat _
  cases srcStat with
  | error e => exact wp_close source fun _ g closed => closed
  | ok srcStat =>
  apply wp_ite.mpr
  refine ⟨fun _ => wp_close source fun _ g closed => closed, fun _ => ?_⟩
  apply wp_open source
  · intro e
    exact wp_close source fun _ g closed => closed
  intro destFd g _ _ both
  have both : Holding found g₀ [srcFd, destFd] g := both.perm (List.Perm.swap srcFd destFd [])
  have closes : ∀ {g} {p : Sys (SysResult Unit)}, Holding found g₀ [srcFd, destFd] g →
      p.Calls Quiet → wp (kernel found) (do
        let _ ← fileCall (.close srcFd)
        let _ ← fileCall (.close destFd)
        p) (fun _ g => Holding found g₀ [] g) g := by
    intro g p both quiet
    exact wp_close both fun _ g one => wp_close one fun _ g closed => wp_quiet quiet fun _ => closed
  apply wp_bind.mpr
  apply wp_lock both List.mem_cons_self
  intro r g both
  cases r with
  | error e => exact closes both (Calls.pure _)
  | ok _ =>
  apply wp_bind.mpr
  apply wp_lock both (List.mem_cons_of_mem srcFd List.mem_cons_self)
  intro r g both
  cases r with
  | error e =>
    apply wp_bind.mpr
    apply wp_lock both List.mem_cons_self
    intro _ g both
    exact closes both (Calls.pure _)
  | ok _ =>
  apply wp_bind.mpr
  refine wp_quiet (calls_within rfl) ?_
  intro copied
  apply wp_bind.mpr
  apply wp_lock both List.mem_cons_self
  intro _ g both
  apply wp_bind.mpr
  apply wp_lock both (List.mem_cons_of_mem srcFd List.mem_cons_self)
  intro _ g both
  apply closes both
  cases copied with
  | error e => exact calls_within rfl
  | ok _ => exact Calls.pure _

end transfers

section commands

variable {File : Type} [DecidableEq File] {found : Nat → File}
  {g₀ g : Descriptors File LockType} {fd : Int} {own : List Int}

/-- The descriptor, unless it is `-1`. -/
def owned (fd : Int) : List Int := if 0 ≤ fd then [fd] else []

theorem owned_positive (positive : 0 ≤ fd) : owned fd = [fd] := if_pos positive

theorem wp_unlockAndClose {Q : Unit → Descriptors File LockType → Prop}
    (h : Holding found g₀ (owned fd ++ own) g) (hQ : ∀ g, Holding found g₀ own g → Q () g) :
    wp (kernel found) (unlockAndClose fd) Q g := by
  unfold unlockAndClose
  rw [wp_when]
  constructor
  · intro positive
    rw [owned_positive positive] at h
    apply wp_bind.mpr
    apply wp_lock h List.mem_cons_self
    intro _ g held
    exact wp_close held fun _ g closed => hQ g closed
  · intro negative
    rw [owned, if_neg negative] at h
    exact hQ g h

def Locked (found : Nat → File) (g₀ : Descriptors File LockType) (r : Option Int)
    (g : Descriptors File LockType) : Prop :=
  match r with
  | none => Holding found g₀ [] g
  | some fd => Holding found g₀ (owned fd) g

theorem wp_lockDeleted {pathStat : Stat} {fullPath : CStr} (h : Holding found g₀ [] g) :
    wp (kernel found) (lockDeleted pathStat fullPath) (Locked found g₀) g := by
  unfold lockDeleted
  apply wp_ite.mpr
  refine ⟨fun _ => h, fun _ => ?_⟩
  apply wp_open h
  · intro e
    apply wp_bind.mpr
    exact wp_quiet (calls_within rfl) fun _ => h
  intro fd g positive _ held
  apply wp_bind.mpr
  apply wp_lock held List.mem_cons_self
  intro r g held
  cases r with
  | error e =>
    apply wp_bind.mpr
    refine wp_quiet (calls_within rfl) ?_
    intro _
    exact wp_close held fun _ g closed => closed
  | ok _ =>
    change Holding found g₀ (owned fd) g
    rw [owned_positive positive]
    exact held

theorem wp_lockMoveSource {srcStat : Stat} {fullSrcPath : CStr} (h : Holding found g₀ [] g) :
    wp (kernel found) (lockMoveSource srcStat fullSrcPath) (Locked found g₀) g := by
  unfold lockMoveSource
  apply wp_ite.mpr
  refine ⟨fun _ => h, fun _ => ?_⟩
  apply wp_open h
  · intro e
    apply wp_bind.mpr
    exact wp_quiet (calls_within rfl) fun _ => h
  intro fd g positive _ held
  apply wp_bind.mpr
  apply wp_lock held List.mem_cons_self
  intro r g held
  cases r with
  | error e =>
    apply wp_bind.mpr
    refine wp_quiet (calls_within rfl) ?_
    intro _
    exact wp_close held fun _ g closed => closed
  | ok _ =>
    change Holding found g₀ (owned fd) g
    rw [owned_positive positive]
    exact held

theorem wp_openMoveDest {srcStat : Stat} {fullSrcPath fullDestPath : CStr}
    {Q : Except (Errno × CStr) (Int × CStr) → Descriptors File LockType → Prop}
    (h : Holding found g₀ own g) (failed : ∀ failure, Q (.error failure) g)
    (opened : ∀ destFd path g, Holding found g₀ (owned destFd ++ own) g → Q (.ok (destFd, path)) g) :
    wp (kernel found) (openMoveDest srcStat fullSrcPath fullDestPath) Q g := by
  have there : ∀ {path} destFd g, 0 ≤ destFd → destFd ∉ own → Holding found g₀ (destFd :: own) g →
      Q (.ok (destFd, path)) g := by
    intro path destFd g positive _ held
    apply opened destFd path g
    rw [owned_positive positive]
    exact held
  apply wp_call trivial
  intro destStat _
  cases destStat with
  | error e => exact opened (-1) _ g h
  | ok destStat =>
  apply wp_ite.mpr
  constructor
  · intro _
    exact wp_open h (fun e => failed _) there
  · intro _
    apply wp_ite.mpr
    constructor
    · intro _
      exact wp_open h (fun e => failed _) there
    · intro _
      exact opened (-1) _ g h

theorem wp_lockMoveDest {destFd : Int} {k : SysResult Unit → Sys Unit}
    {Q : Unit → Descriptors File LockType → Prop} (h : Holding found g₀ (owned destFd ++ own) g)
    (failed : ∀ e g, 0 ≤ destFd → Holding found g₀ (owned destFd ++ own) g →
      wp (kernel found) (k (.error e)) Q g)
    (taken : ∀ g, Holding found g₀ (owned destFd ++ own) g → wp (kernel found) (k (.ok ())) Q g) :
    wp (kernel found) (if 0 ≤ destFd then acquireWriteLock destFd 0 0 >>= k
      else pure (.ok ()) >>= k) Q g := by
  apply wp_ite.mpr
  constructor
  · intro positive
    have member : destFd ∈ owned destFd ++ own := by
      rw [owned_positive positive]
      exact List.mem_cons_self
    apply wp_bind.mpr
    apply wp_lock h member
    intro r g held
    cases r with
    | error e => exact failed e g positive held
    | ok _ => exact taken g held
  · intro _
    exact taken g h

theorem wp_dispatchMove {session : Session} {payload : Option CStr} (h : Holding found g₀ [] g) :
    wp (kernel found) (dispatchMove session payload) (fun _ g => Holding found g₀ [] g) g := by
  unfold dispatchMove
  apply wp_bind.mpr
  refine wp_quiet (calls_within rfl) ?_
  intro moveCommand
  cases moveCommand with
  | none => exact h
  | some moveCommand =>
  apply wp_bind.mpr
  refine wp_quiet (calls_within rfl) ?_
  intro fullSrcPath
  cases fullSrcPath with
  | none => exact h
  | some fullSrcPath =>
  apply wp_bind.mpr
  refine wp_quiet (calls_within rfl) ?_
  intro fullDestPath
  cases fullDestPath with
  | none => exact h
  | some fullDestPath =>
  apply wp_call trivial
  intro srcStat _
  cases srcStat with
  | error e => exact wp_quiet (calls_within rfl) fun _ => h
  | ok srcStat =>
  apply wp_bind.mpr
  apply wp_mono (wp_lockMoveSource h)
  intro srcFd g source
  cases srcFd with
  | none => exact source
  | some srcFd =>
  have source : Holding found g₀ (owned srcFd ++ []) g := by
    rw [List.append_nil]
    exact source
  apply wp_bind.mpr
  apply wp_openMoveDest source
  · rintro ⟨e, reason⟩
    apply wp_bind.mpr
    refine wp_quiet (calls_within rfl) ?_
    intro _
    exact wp_unlockAndClose source fun _ closed => closed
  intro destFd destPathFinal g both
  have swap : ∀ {g}, Holding found g₀ (owned destFd ++ (owned srcFd ++ [])) g →
      Holding found g₀ (owned srcFd ++ (owned destFd ++ [])) g := by
    intro g both
    apply both.perm
    simpa using List.perm_append_comm
  dsimp only
  apply wp_lockMoveDest both
  · intro e g positive both
    apply wp_bind.mpr
    refine wp_quiet (calls_within rfl) ?_
    intro _
    apply wp_bind.mpr
    apply wp_unlockAndClose (swap both)
    intro g one
    rw [List.append_nil, owned_positive positive] at one
    exact wp_close one fun _ g closed => closed
  · intro g both
    apply wp_call trivial
    intro moved _
    cases moved with
    | error e =>
      apply wp_bind.mpr
      apply wp_unlockAndClose (swap both)
      intro g one
      apply wp_bind.mpr
      apply wp_unlockAndClose one
      intro g closed
      exact wp_quiet (calls_within rfl) fun _ => closed
    | ok _ =>
      apply wp_bind.mpr
      refine wp_quiet (calls_within rfl) ?_
      intro _
      apply wp_bind.mpr
      apply wp_unlockAndClose (swap both)
      intro g one
      exact wp_unlockAndClose one fun _ closed => closed

theorem wp_dispatchDelete {session : Session} {payload : Option CStr} (h : Holding found g₀ [] g) :
    wp (kernel found) (dispatchDelete session payload) (fun _ g => Holding found g₀ [] g) g := by
  unfold dispatchDelete
  apply wp_bind.mpr
  refine wp_quiet (calls_within rfl) ?_
  intro deleteCommand
  cases deleteCommand with
  | none => exact h
  | some deleteCommand =>
  apply wp_bind.mpr
  refine wp_quiet (calls_within rfl) ?_
  intro fullPath
  cases fullPath with
  | none => exact h
  | some fullPath =>
  apply wp_call trivial
  intro pathStat _
  cases pathStat with
  | error e => exact wp_quiet (calls_within rfl) fun _ => h
  | ok pathStat =>
  apply wp_bind.mpr
  apply wp_mono (wp_lockDeleted h)
  intro fd g held
  cases fd with
  | none => exact held
  | some fd =>
  have held : Holding found g₀ (owned fd ++ []) g := by
    rw [List.append_nil]
    exact held
  apply wp_bind.mpr
  refine wp_quiet (calls_within rfl) ?_
  intro deleted
  cases deleted with
  | error e =>
    apply wp_bind.mpr
    refine wp_quiet (calls_within rfl) ?_
    intro _
    exact wp_unlockAndClose held fun _ closed => closed
  | ok _ =>
    apply wp_bind.mpr
    refine wp_quiet (calls_within rfl) ?_
    intro _
    exact wp_unlockAndClose held fun _ closed => closed

end commands

section results

variable {File : Type} [DecidableEq File] {found : Nat → File} {g : Descriptors File LockType}

/-- However the calls are answered: when the function returns, the descriptors and the locks of the
process are those it had when the function was called. -/
def Balances {α : Type} (found : Nat → File) (p : Sys α) (g : Descriptors File LockType) : Prop :=
  wp (kernel found) p (fun _ g' => Balanced g g') g

theorem balances_of_holding {α : Type} {p : Sys α} (apart : Apart found g)
    (h : Holding found g [] g → wp (kernel found) p (fun _ g' => Holding found g [] g') g) :
    Balances found p g :=
  wp_mono (h (Holding.start apart)) fun _ _ closed => closed.balanced

/-- The transfers, and the commands that lock what they move or delete, close each descriptor they
open once, and hold no lock when they return. -/
theorem resources_balanced (apart : Apart found g) :
    (∀ texts target, Balances found (receiveIntoFile texts target) g) ∧
      (∀ texts path offset dataCode endCode,
        Balances found (sendFile texts path offset dataCode endCode) g) ∧
      (∀ srcPath destPath, Balances found (executeTransferCopy srcPath destPath) g) ∧
      (∀ session payload, Balances found (dispatchMove session payload) g) ∧
      ∀ session payload, Balances found (dispatchDelete session payload) g := by
  refine ⟨?_, ?_, ?_, ?_, ?_⟩
  · intro texts target
    exact balances_of_holding apart wp_receiveIntoFile
  · intro texts path offset dataCode endCode
    exact balances_of_holding apart wp_sendFile
  · intro srcPath destPath
    exact balances_of_holding apart wp_executeTransferCopy
  · intro session payload
    exact balances_of_holding apart wp_dispatchMove
  · intro session payload
    exact balances_of_holding apart wp_dispatchDelete

def loggedIn : Descriptors Nat LockType where
  fds := fun fd => if fd = 4 then some 0 else if fd = 5 then some 1 else none
  locks := fun _ _ => none
  opened := 2

theorem resources_balanced_loggedIn :
    Balances id (sendFile ⟨fun _ => [], fun _ => []⟩ (cstr "/srv/alice/f") 0 Command.data.code
      Command.dataEnd.code) loggedIn :=
  (resources_balanced fun _ _ _ => rfl).2.1 _ _ _ _ _

end results

end Csap.Balance
