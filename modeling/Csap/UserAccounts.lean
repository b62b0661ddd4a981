import Csap.Runs
import Csap.Session

/-! Creating a user: the account database, the home directories, and what a failed
`create_user` leaves of them. -/

namespace Csap

open Prog

structure HomeDir where
  owner : Int
  gid : Int
  mode : Nat
deriving DecidableEq, Repr

/-- The accounts by name, the directories by path, and the effective user of the process. -/
structure Users where
  euid : Int
  account : CStr → Option Passwd
  home : CStr → Option HomeDir

/-- The account `adduser` makes for a name, and whether it leaves it behind when it fails. -/
structure Adduser where
  passwd : CStr → Passwd
  leaves : Bool

def Users.setHome (s : Users) (path : CStr) (dir : HomeDir) : Users :=
  { s with home := Function.update s.home path (some dir) }

def Users.addAccount (s : Users) (name : CStr) (pwd : Passwd) : Users :=
  { s with account := Function.update s.account name (some ((s.account name).getD pwd)) }

/-- The calls of `handle_create_user`; the choice is the error of a call that fails. -/
def userSystem (adduser : Adduser) : Handler Call.Reply Users (Option Errno)
  | .user .geteuid, _, s => some (s.euid, s)
  | .user (.seteuid _), some e, s => some (.error e, s)
  | .user (.seteuid uid), none, s => some (.ok (), { s with euid := uid })
  | .user (.getpwnam _), some _, s => some (none, s)
  | .user (.getpwnam name), none, s => some (s.account name, s)
  | .user (.runExec argv), failure, s =>
    let name := argv.getLast?.getD []
    let added := s.addAccount name (adduser.passwd name)
    if failure.isNone ∧ s.account name = none then some (0, added)
    else some (-1, if adduser.leaves then added else s)
  | .file (.mkdir _ _), some e, s => some (.error e, s)
  | .file (.mkdir path mode), none, s =>
    match s.home path with
    | some _ => some (.error EEXIST, s)
    | none => some (.ok (), s.setHome path { owner := s.euid, gid := 0, mode })
  | .file (.chown _ _ _), some e, s => some (.error e, s)
  | .file (.chown path uid gid), none, s =>
    match s.home path with
    | none => some (.error ENOENT, s)
    | some dir => some (.ok (), s.setHome path { dir with owner := uid, gid })
  | .file (.chmod _ _), some e, s => some (.error e, s)
  | .file (.chmod path mode), none, s =>
    match s.home path with
    | none => some (.error ENOENT, s)
    | some dir => some (.ok (), s.setHome path { dir with mode })
  | _, _, _ => none

def obliging (adduser : Adduser) : Handler Call.Reply Users Unit :=
  fun c _ s => userSystem adduser c none s

def homeDirPath (root username : CStr) : CStr :=
  snprintf (PATH_MAX + 64) (root ++ cstr "/" ++ username)

variable {server : Server} {adduser : Adduser} {root username : CStr} {perms : Nat} {s t : Users}

def Users.Own (server : Server) (username : CStr) (s : Users) : Prop :=
  ∀ pwd, s.account username = some pwd → isCsapUser server pwd = true

section obliging

variable {path : CStr} {dir : HomeDir} {mode : Nat} {uid gid : Int}

theorem mkdir_taken (found : s.home path = some dir) :
    obliging adduser (.file (.mkdir path mode)) () s = some (.error EEXIST, s) := by
  simp only [obliging, userSystem, found]

theorem mkdir_new (absent : s.home path = none) :
    obliging adduser (.file (.mkdir path mode)) () s =
      some (.ok (), s.setHome path { owner := s.euid, gid := 0, mode }) := by
  simp only [obliging, userSystem, absent]

theorem chown_found (found : s.home path = some dir) :
    obliging adduser (.file (.chown path uid gid)) () s =
      some (.ok (), s.setHome path { dir with owner := uid, gid }) := by
  simp only [obliging, userSystem, found]

theorem chmod_found (found : s.home path = some dir) :
    obliging adduser (.file (.chmod path mode)) () s =
      some (.ok (), s.setHome path { dir with mode }) := by
  simp only [obliging, userSystem, found]

@[simp] theorem home_setHome : (s.setHome path dir).home path = some dir := Function.update_self ..

@[simp] theorem setHome_setHome (dir' : HomeDir) :
    (s.setHome path dir).setHome path dir' = s.setHome path dir' := by
  simp [Users.setHome]

@[simp] theorem account_setHome : (s.setHome path dir).account = s.account := rfl

theorem createHomeDirectory_taken (pwd : Passwd) (found : s.home (homeDirPath root username) = some dir) :
    Achieves (obliging adduser) (createHomeDirectory server root username perms pwd)
      (fun r u => r.isOk = false ∧ u = s) s := by
  refine Achieves.bind (achieves_call (mkdir_taken found) ?_)
  exact achieves_pure ⟨rfl, rfl⟩

theorem createHomeDirectory_new (pwd : Passwd) (absent : s.home (homeDirPath root username) = none) :
    Achieves (obliging adduser) (createHomeDirectory server root username perms pwd)
      (fun r u => r = .ok () ∧
        u = s.setHome (homeDirPath root username) ⟨pwd.uid, server.serverGid, perms⟩) s := by
  refine Achieves.bind (achieves_call (mkdir_new absent) ?_)
  refine Achieves.bind (achieves_call (chown_found home_setHome) ?_)
  refine Achieves.bind (achieves_call (chmod_found home_setHome) ?_)
  refine achieves_pure ⟨rfl, ?_⟩
  rw [setHome_setHome, setHome_setHome]
  rfl

theorem restoreEuid_obliging (originalEuid : Int) (rc : Except CStr Unit) :
    Achieves (obliging adduser) (restoreEuid server originalEuid rc)
      (fun r u => r = rc ∧ u = { s with euid := originalEuid }) s := by
  refine Achieves.bind (achieves_call (t := { s with euid := originalEuid }) rfl ?_)
  exact achieves_pure ⟨rfl, rfl⟩

def Retried (server : Server) (root username : CStr) (perms : Nat) (t : Users)
    (r : Except CStr Unit) (u : Users) : Prop :=
  if t.home (homeDirPath root username) = none then
    r = .ok () ∧ ∃ pwd, u.account username = some pwd ∧
      u.home (homeDirPath root username) = some ⟨pwd.uid, server.serverGid, perms⟩
  else r.isOk = false

theorem createHome_retried {pwd : Passwd} (originalEuid : Int) (account : s.account username = some pwd)
    (same : s.home = t.home) : Achieves (obliging adduser) (do
      let rc ← createHomeDirectory server root username perms pwd
      restoreEuid server originalEuid rc) (Retried server root username perms t) s := by
  cases found : t.home (homeDirPath root username) with
  | some dir =>
    refine Achieves.bind ((createHomeDirectory_taken pwd (same ▸ found)).mono ?_)
    rintro r u ⟨failed, rfl⟩
    refine (restoreEuid_obliging originalEuid r).mono ?_
    rintro _ v ⟨rfl, rfl⟩
    rwa [Retried, found, if_neg (Option.some_ne_none dir)]
  | none =>
    refine Achieves.bind ((createHomeDirectory_new pwd (same ▸ found)).mono ?_)
    rintro _ u ⟨rfl, rfl⟩
    refine (restoreEuid_obliging originalEuid _).mono ?_
    rintro _ v ⟨rfl, rfl⟩
    rw [Retried, if_pos found]
    exact ⟨rfl, pwd, account, home_setHome⟩

variable (adduser root) in
theorem handleCreateUser_obliging (valid : validateUsername username = none) (range : perms ≤ 0o777)
    (own : t.Own server username) : Achieves (obliging adduser)
      (handleCreateUser server username perms root) (Retried server root username perms t) t := by
  unfold handleCreateUser
  refine Achieves.bind (achieves_call (t := t) rfl ?_)
  rw [valid]
  dsimp only
  rw [if_neg (not_lt.mpr range)]
  refine Achieves.bind (achieves_call (t := { t with euid := 0 }) rfl ?_)
  refine Achieves.bind (achieves_call (t := { t with euid := 0 }) rfl ?_)
  cases account : t.account username with
  | some pwd =>
    dsimp only
    rw [own pwd account]
    exact createHome_retried t.euid account rfl
  | none =>
    let added := ({ t with euid := 0 } : Users).addAccount username (adduser.passwd username)
    have created : added.account username = some (adduser.passwd username) := by
      simp [added, Users.addAccount, account]
    have ran : obliging adduser (.user (.runExec (adduserArgv username))) () { t with euid := 0 } =
        some (0, added) := by
      have last : (adduserArgv username).getLast?.getD [] = username := rfl
      simp only [obliging, userSystem, last, account]
      rfl
    refine Achieves.bind (achieves_call (t := { t with euid := 0 }) rfl ?_)
    rw [if_neg (by simp)]
    refine Achieves.bind (achieves_call ran ?_)
    rw [if_neg (lt_irrefl _)]
    refine Achieves.bind (achieves_call (t := added) (r := some (adduser.passwd username)) ?_ ?_)
    · rw [← created]
      rfl
    · exact createHome_retried t.euid created rfl

theorem own_addAccount {name : CStr} {pwd : Passwd} (own : s.Own server username)
    (made : isCsapUser server pwd = true) : (s.addAccount name pwd).Own server username := by
  intro other found
  by_cases here : username = name
  · subst here
    simp only [Users.addAccount, Function.update_self, Option.some.injEq] at found
    cases before : s.account username with
    | none =>
      rw [before, Option.getD_none] at found
      rwa [← found]
    | some old =>
      rw [before, Option.getD_some] at found
      rw [← found]
      exact own old before
  · simp only [Users.addAccount, Function.update_of_ne here] at found
    exact own other found

theorem account_userSystem {c : Call} {choice : Option Errno} {r : c.Reply}
    (done : userSystem adduser c choice s = some (r, t)) : t.account = s.account ∨
      ∃ name, t = s.addAccount name (adduser.passwd name) := by
  unfold userSystem at done
  split at done
  case h_6 argv failure s =>
    dsimp only at done
    split_ifs at done <;> cases done
    · exact .inr ⟨_, rfl⟩
    · exact .inr ⟨_, rfl⟩
    · exact .inl rfl
  all_goals
    try split at done
    all_goals first
      | cases done; exact .inl rfl
      | cases done

theorem own_userSystem {c : Call} {choice : Option Errno} {r : c.Reply}
    (made : ∀ name, isCsapUser server (adduser.passwd name) = true)
    (done : userSystem adduser c choice s = some (r, t)) (own : s.Own server username) :
    t.Own server username := by
  rcases account_userSystem done with same | ⟨name, rfl⟩
  · rwa [Users.Own, same]
  · exact own_addAccount own (made name)

theorem own_kept {log : History Call.Reply Users (Option Errno)} {r : Except CStr Unit}
    (made : ∀ name, isCsapUser server (adduser.passwd name) = true) (own : s.Own server username)
    (ran : Returns (userSystem adduser) (handleCreateUser server username perms root) s log r t) :
    t.Own server username := by
  have all : Ensures (userSystem adduser) (handleCreateUser server username perms root)
      (fun _ _ t => s.Own server username → t.Own server username) [] s :=
    (Calls.trivial _).ensures (fun s t => s.Own server username → t.Own server username)
      (fun _ own => own) (fun _ _ _ first second own => second (first own))
      (fun _ _ _ _ _ _ done => own_userSystem made done) (fun _ _ _ _ own => own)
  exact all log _ t ran own

def MakesDir (path : CStr) (h : Happened Call.Reply Users (Option Errno)) : Prop :=
  match h.call, h.reply with
  | .file (.mkdir made _), .ok _ => made = path
  | _, _ => False

theorem home_userSystem {c : Call} {choice : Option Errno} {r : c.Reply} {path : CStr}
    (done : userSystem adduser c choice s = some (r, t)) :
    t.home path = none ↔ s.home path = none ∧ ¬ MakesDir path ⟨c, r, choice, s, t⟩ := by
  have unmade : ∀ {u : Users}, u.home = s.home → ¬ MakesDir path ⟨c, r, choice, s, t⟩ →
      (u.home path = none ↔ s.home path = none ∧ ¬ MakesDir path ⟨c, r, choice, s, t⟩) := by
    intro u same quiet
    rw [same]
    exact ⟨fun absent => ⟨absent, quiet⟩, fun absent => absent.1⟩
  have changed : ∀ {other : CStr} {dir new : HomeDir}, s.home other = some dir →
      ((s.setHome other new).home path = none ↔ s.home path = none) := by
    intro other dir new found
    by_cases here : path = other
    · subst here
      simp [found]
    · simp [Users.setHome, Function.update_of_ne here]
  unfold userSystem at done
  split at done
  case h_6 argv failure =>
    dsimp only at done
    split_ifs at done <;> cases done <;> exact unmade rfl id
  case h_8 s made mode =>
    split at done
    · cases done
      exact unmade rfl id
    · rename_i absent
      cases done
      by_cases here : path = made
      · subst here
        simp [MakesDir, absent]
      · simp [MakesDir, Users.setHome, Function.update_of_ne here, Ne.symm here]
  case h_10 s other uid gid =>
    split at done
    · cases done
      exact unmade rfl id
    · rename_i dir found
      cases done
      simpa [MakesDir] using changed found
  case h_12 s other mode =>
    split at done
    · cases done
      exact unmade rfl id
    · rename_i dir found
      cases done
      simpa [MakesDir] using changed found
  all_goals first
    | cases done; exact unmade rfl id
    | cases done

/-- A run leaves no directory of the name where there was none and no `mkdir` of it succeeded. -/
theorem home_left {α : Type} {p : Sys α} {log : History Call.Reply Users (Option Errno)} {a : α}
    {path : CStr} (ran : Returns (userSystem adduser) p s log a t) :
    t.home path = none ↔ s.home path = none ∧ ∀ h ∈ log, ¬ MakesDir path h := by
  induction ran with
  | ret a s => simp
  | call done _ ih => rw [ih, home_userSystem done, List.forall_mem_cons, and_assoc]
  | loop _ ih => exact ih

theorem retry_refused {log : History Call.Reply Users Unit} {u : Users}
    (valid : validateUsername username = none) (range : perms ≤ 0o777) (own : t.Own server username)
    (left : t.home (homeDirPath root username) ≠ none) : ¬ Returns (obliging adduser)
      (handleCreateUser server username perms root) t log (.ok ()) u := by
  intro again
  obtain ⟨log', r, u', ran, outcome⟩ := handleCreateUser_obliging adduser root valid range own
  obtain ⟨-, rfl, -⟩ := again.unique ran
  rw [Retried, if_neg left] at outcome
  cases outcome

end obliging

/-- A failed `create_user` can be repeated just where it has left no home directory: there was none
and it has not made one. -/
theorem retry_succeeds_iff {log : History Call.Reply Users (Option Errno)} {msg : CStr}
    (made : ∀ name, isCsapUser server (adduser.passwd name) = true)
    (valid : validateUsername username = none) (range : perms ≤ 0o777)
    (own : s.Own server username)
    (failed : Returns (userSystem adduser) (handleCreateUser server username perms root) s log
      (.error msg) t) :
    ((∃ log u pwd, Returns (obliging adduser) (handleCreateUser server username perms root) t log
        (.ok ()) u ∧ u.account username = some pwd ∧
        u.home (homeDirPath root username) = some ⟨pwd.uid, server.serverGid, perms⟩) ↔
      t.home (homeDirPath root username) = none) ∧
    (t.home (homeDirPath root username) = none ↔
      s.home (homeDirPath root username) = none ∧
        ∀ h ∈ log, ¬ MakesDir (homeDirPath root username) h) := by
  have kept := own_kept made own failed
  refine ⟨?_, home_left failed⟩
  constructor
  · rintro ⟨log', u, pwd, again, -, -⟩
    by_contra left
    exact retry_refused valid range kept left again
  · intro absent
    obtain ⟨log', r, u, ran, outcome⟩ := handleCreateUser_obliging adduser root valid range kept
    rw [Retried, if_pos absent] at outcome
    obtain ⟨rfl, pwd, account, home⟩ := outcome
    exact ⟨log', u, pwd, ran, account, home⟩

/-- No user yet, and an `adduser` that works. -/
def unpopulated : Users where
  euid := 65534
  account := fun _ => none
  home := fun _ => none

theorem unpopulated_own : unpopulated.Own server username := by
  intro _ found
  cases found

def addsUsers : Adduser where
  passwd := fun _ => { uid := 1002, gid := 1001 }
  leaves := false

def accountServer : Server where
  texts := ⟨fun _ => [], fun _ => []⟩
  rootDirectory := cstr "/srv"
  serverGid := 1001
  unprivUid := 65534
  unprivGid := 65534
  pid := 7

/-- `adduser` cannot be started. -/
def adduserFails : Call → Users → Option Errno
  | .user (.runExec _), _ => some EIO
  | _, _ => none

def chownFails : Call → Users → Option Errno
  | .file (.chown _ _ _), _ => some EIO
  | _, _ => none

theorem retry_succeeds_marco : ∃ log msg t, Returns (userSystem addsUsers)
    (handleCreateUser accountServer (cstr "marco") 0o750 (cstr "/srv")) unpopulated log (.error msg) t ∧
    ((∃ log u pwd, Returns (obliging addsUsers)
        (handleCreateUser accountServer (cstr "marco") 0o750 (cstr "/srv")) t log (.ok ()) u ∧
        u.account (cstr "marco") = some pwd ∧
        u.home (homeDirPath (cstr "/srv") (cstr "marco")) = some ⟨pwd.uid, 1001, 0o750⟩) ↔
      t.home (homeDirPath (cstr "/srv") (cstr "marco")) = none) ∧
    (t.home (homeDirPath (cstr "/srv") (cstr "marco")) = none ↔
      ∀ h ∈ log, ¬ MakesDir (homeDirPath (cstr "/srv") (cstr "marco")) h) := by
  have fails : (execute (userSystem addsUsers) adduserFails 20
      (handleCreateUser accountServer (cstr "marco") 0o750 (cstr "/srv")) unpopulated).any
      (fun r => decide (r.2.1.isOk = false)) = true := by
    decide +kernel
  obtain ⟨log, r, t, ran, failed⟩ := exists_of_execute 20 (fun _ (r : Except CStr Unit) _ => r.isOk = false) fails
  cases r with
  | ok _ => cases failed
  | error msg =>
    obtain ⟨again, left⟩ := retry_succeeds_iff (fun _ => rfl) (by decide) (by decide)
      unpopulated_own ran
    exact ⟨log, msg, t, ran, again, left.trans (and_iff_right rfl)⟩

/-- Once `chown` has failed the directory is in the way. -/
theorem chown_failed_for_good : ¬ ∀ {server : Server} {adduser : Adduser} {root username : CStr}
    {perms : Nat} {s t : Users} {log : History Call.Reply Users (Option Errno)} {msg : CStr},
    (∀ name, isCsapUser server (adduser.passwd name) = true) → validateUsername username = none →
    perms ≤ 0o777 → s.Own server username → s.home (homeDirPath root username) = none →
    Returns (userSystem adduser) (handleCreateUser server username perms root) s log (.error msg) t →
    ∃ log u pwd, Returns (obliging adduser) (handleCreateUser server username perms root) t log
      (.ok ()) u ∧ u.account username = some pwd ∧
      u.home (homeDirPath root username) = some ⟨pwd.uid, server.serverGid, perms⟩ := by
  intro all
  have leaves : (execute (userSystem addsUsers) chownFails 20
      (handleCreateUser accountServer (cstr "marco") 0o750 (cstr "/srv")) unpopulated).any
      (fun r => decide (r.2.1.isOk = false ∧
        r.2.2.home (homeDirPath (cstr "/srv") (cstr "marco")) ≠ none)) = true := by
    decide +kernel
  obtain ⟨log, r, t, ran, failed, left⟩ := exists_of_execute 20
    (fun _ (r : Except CStr Unit) (t : Users) => r.isOk = false ∧
      t.home (homeDirPath (cstr "/srv") (cstr "marco")) ≠ none) leaves
  cases r with
  | ok _ => cases failed
  | error msg =>
    have made : ∀ name, isCsapUser accountServer (addsUsers.passwd name) = true := fun _ => rfl
    obtain ⟨_, _, _, again, -, -⟩ := all made (by decide) (by decide) unpopulated_own rfl ran
    exact retry_refused (by decide) (by decide) (own_kept made unpopulated_own ran) left again

end Csap
