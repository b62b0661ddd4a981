import Csap.PathNames
import Csap.Protocol
import Csap.Runs

/-! What `parse_command` accepts, and what it stores: the token loop is compared
with the positional tokens and the options of a line taken apart. -/

namespace Csap

open Prog

def isOption (token : CStr) : Bool := token.head? = some 45

def positional (args : List CStr) : List CStr := args.filter fun token => !isOption token

def isOffset (token : CStr) : Bool := token.take 8 = cstr "-offset="

/-- The value of an `-offset=` option, if `parse_command` takes it. -/
def offsetValue (token : CStr) : Option Int :=
  let number := token.drop 8
  let offset := strtol 10 number
  if isOffset token ∧ offset.range = false ∧ offset.rest ≠ number ∧ offset.rest = [] ∧
      0 ≤ offset.value then some offset.value
  else none

def ValidOption (token : CStr) : Prop :=
  token = cstr "-b" ∨ token = cstr "-d" ∨ (offsetValue token).isSome

def Cmd.take (command : Cmd) (token : CStr) : Cmd :=
  if isOption token then
    if token = cstr "-b" then { command with isBackground := true }
    else if token = cstr "-d" then { command with isDir := true }
    else { command with offset := (offsetValue token).getD command.offset }
  else if command.argc = 0 then { command with buf := snprintf PATH_MAX token, argc := 1 }
  else { command with buf2 := snprintf PATH_MAX token, argc := command.argc + 1 }

section loop

variable {row : CommandRow} {command result : Cmd} {token : CStr} {args : List CStr}

theorem ok_iff {α ε : Type} {a b : α} : (Except.ok a : Except ε α) = .ok b ↔ b = a :=
  ⟨fun h => (Except.ok.inj h).symm, fun h => h ▸ rfl⟩

theorem offsetValue_eq_none (h : (strtol 10 (token.drop 8)).range ∨
    (strtol 10 (token.drop 8)).rest = token.drop 8 ∨ (strtol 10 (token.drop 8)).rest ≠ [] ∨
    (strtol 10 (token.drop 8)).value < 0) : offsetValue token = none := by
  refine if_neg ?_
  rintro ⟨-, range, some, whole, positive⟩
  rcases h with h | h | h | h
  · rw [range] at h
    cases h
  · exact some h
  · exact h whole
  · exact absurd positive (not_le.mpr h)

theorem parseOption_eq_ok : parseOption command token = .ok result ↔
    ValidOption token ∧ result = (if token = cstr "-b" then { command with isBackground := true }
      else if token = cstr "-d" then { command with isDir := true }
      else { command with offset := (offsetValue token).getD command.offset }) := by
  unfold parseOption ValidOption
  by_cases background : token = cstr "-b"
  · rw [if_pos background, if_pos background, ok_iff]
    exact ⟨fun h => ⟨.inl background, h⟩, fun h => h.2⟩
  rw [if_neg background, if_neg background]
  by_cases dir : token = cstr "-d"
  · rw [if_pos dir, if_pos dir, ok_iff]
    exact ⟨fun h => ⟨.inr (.inl dir), h⟩, fun h => h.2⟩
  rw [if_neg dir, if_neg dir]
  have refused : offsetValue token = none →
      (False ↔ (token = cstr "-b" ∨ token = cstr "-d" ∨ (offsetValue token).isSome) ∧
        result = { command with offset := (offsetValue token).getD command.offset }) := by
    intro none
    simp only [background, dir, none, Option.isSome_none, Bool.false_eq_true, or_self, false_and]
  by_cases named : token.take 8 = cstr "-offset="
  · rw [if_pos named]
    dsimp only
    split_ifs with bad negative
    · exact refused (offsetValue_eq_none (bad.imp_right (Or.imp_right .inl)))
    · exact refused (offsetValue_eq_none (.inr (.inr (.inr negative))))
    · push Not at bad
      have value : offsetValue token = some (strtol 10 (token.drop 8)).value :=
        if_pos ⟨decide_eq_true named, Bool.eq_false_of_not_eq_true bad.1, bad.2.1, bad.2.2,
          not_lt.mp negative⟩
      rw [ok_iff, value]
      exact ⟨fun h => ⟨.inr (.inr rfl), h⟩, fun h => h.2⟩
  · simp only [if_neg named, reduceCtorEq]
    refine refused (if_neg fun h => named ?_)
    exact of_decide_eq_true h.1

/-- The loop accepts options it knows and two arguments, and takes the tokens one by one. -/
theorem parseArgs_eq_ok (few : command.argc ≤ 2) : parseArgs row command args = .ok result ↔
    (∀ token ∈ args, isOption token → ValidOption token) ∧
      command.argc + (positional args).length ≤ 2 ∧ result = args.foldl Cmd.take command := by
  induction args generalizing command with
  | nil =>
    simp only [parseArgs, positional, List.filter_nil, List.length_nil, List.foldl_nil,
      Except.ok.injEq]
    constructor
    · rintro rfl
      exact ⟨by simp, few, rfl⟩
    · rintro ⟨-, -, rfl⟩
      rfl
  | cons token rest ih =>
    have room : command.argc < MAX_ARGS := few.trans_lt (by decide)
    rw [parseArgs, if_pos room, List.foldl_cons, List.forall_mem_cons]
    by_cases option : isOption token = true
    · have dash : token.head? = some 45 := of_decide_eq_true option
      have skipped : positional (token :: rest) = positional rest := by
        simp [positional, option]
      rw [if_pos dash, skipped]
      have known := @parseOption_eq_ok command
      cases parsed : parseOption command token with
      | error msg =>
        have unknown : ¬ ValidOption token := by
          intro valid
          rw [known.mpr ⟨valid, rfl⟩] at parsed
          cases parsed
        simp [option, unknown]
      | ok next =>
        obtain ⟨valid, same⟩ := known.mp parsed
        have taken : next = command.take token := by
          rw [same, Cmd.take, if_pos option]
        have count : next.argc = command.argc := by
          rw [same]
          split_ifs <;> rfl
        dsimp only
        rw [ih (count ▸ few), count, ← taken]
        simp [valid]
    · have dash : ¬ token.head? = some 45 := fun h => option (decide_eq_true h)
      have counted : (positional (token :: rest)).length = (positional rest).length + 1 := by
        simp [positional, option]
      rw [if_neg dash, counted]
      by_cases first : command.argc = 0
      · rw [if_pos first, ih (Nat.le_succ 1), Cmd.take, if_neg option, if_pos first]
        simp only [option, first]
        grind
      · rw [if_neg first]
        by_cases second : command.argc = 1
        · rw [if_pos second, ih le_rfl, Cmd.take, if_neg option, if_neg first]
          simp only [option, second]
          grind
        · rw [if_neg second]
          have full : ¬ command.argc + ((positional rest).length + 1) ≤ 2 := by omega
          simp [full]

end loop

section fields

def place (stored : Nat × CStr × CStr) (token : CStr) : Nat × CStr × CStr :=
  if stored.1 = 0 then (1, snprintf PATH_MAX token, stored.2.2)
  else (stored.1 + 1, stored.2.1, snprintf PATH_MAX token)

def Cmd.stored (command : Cmd) : Nat × CStr × CStr := (command.argc, command.buf, command.buf2)

variable (command : Cmd) (token : CStr) (args : List CStr)

theorem take_code : (command.take token).code = command.code := by
  unfold Cmd.take
  split_ifs <;> rfl

theorem take_isBackground : (command.take token).isBackground =
    (command.isBackground || decide (cstr "-b" = token)) := by
  unfold Cmd.take
  split_ifs with option background dir first
  · rw [background]
    simp
  · rw [dir]
    simp [cstr]
  · simp [Ne.symm background]
  all_goals
    have other : cstr "-b" ≠ token := by
      rintro rfl
      exact option rfl
    simp [other]

theorem take_isDir : (command.take token).isDir =
    (command.isDir || decide (cstr "-d" = token)) := by
  unfold Cmd.take
  split_ifs with option background dir first
  · rw [background]
    simp [cstr]
  · rw [dir]
    simp
  · simp [Ne.symm dir]
  all_goals
    have other : cstr "-d" ≠ token := by
      rintro rfl
      exact option rfl
    simp [other]

omit command args in
theorem isOption_of_isOffset (h : isOffset token = true) : isOption token = true := by
  have named : token.take 8 = cstr "-offset=" := of_decide_eq_true h
  cases token with
  | nil => cases named
  | cons c rest =>
    have dash : c = 45 := (List.cons.inj named).1
    rw [dash]
    rfl

theorem take_offset : (command.take token).offset =
    if isOffset token then (offsetValue token).getD command.offset else command.offset := by
  unfold Cmd.take
  by_cases offset : isOffset token = true
  · have background : token ≠ cstr "-b" := by
      rintro rfl
      cases offset
    have dir : token ≠ cstr "-d" := by
      rintro rfl
      cases offset
    rw [if_pos (isOption_of_isOffset token offset), if_neg background, if_neg dir, if_pos offset]
  · have unset : offsetValue token = none := if_neg fun h => offset h.1
    rw [if_neg offset, unset]
    split_ifs <;> rfl

theorem take_stored : (command.take token).stored =
    if isOption token then command.stored else place command.stored token := by
  unfold Cmd.take Cmd.stored place
  split_ifs <;> rfl

theorem foldl_flag (flag : Cmd → Bool) (option : CStr)
    (step : ∀ command token, flag (command.take token) = (flag command || decide (option = token))) :
    flag (args.foldl Cmd.take command) = (flag command || decide (option ∈ args)) := by
  induction args generalizing command with
  | nil => simp
  | cons token rest ih => simp [ih, step, Bool.or_assoc, List.mem_cons]

theorem foldl_code : (args.foldl Cmd.take command).code = command.code := by
  induction args generalizing command with
  | nil => rfl
  | cons token rest ih => rw [List.foldl_cons, ih, take_code]

theorem foldl_stored : (args.foldl Cmd.take command).stored =
    (positional args).foldl place command.stored := by
  rw [positional, List.foldl_filter]
  refine (List.foldl_hom Cmd.stored fun command token => ?_).symm
  rw [take_stored]
  cases isOption token <;> rfl

theorem foldl_offset : (args.foldl Cmd.take command).offset =
    (args.filter isOffset).foldl (fun offset token => (offsetValue token).getD offset)
      command.offset := by
  rw [List.foldl_filter]
  exact (List.foldl_hom Cmd.offset fun command token => (take_offset command token).symm).symm

end fields

theorem stored_of_few {code : Command} {args : List CStr} (few : (positional args).length ≤ 2) :
    (args.foldl Cmd.take { code }).stored = ((positional args).length,
      snprintf PATH_MAX ((positional args)[0]?.getD []),
      snprintf PATH_MAX ((positional args)[1]?.getD [])) := by
  rw [foldl_stored]
  match positional args, few with
  | [], _ => rfl
  | [_], _ => rfl
  | [_, _], _ => rfl
  | _ :: _ :: _ :: _, few => simp at few

section line

variable {line : CStr} {command : Cmd}

theorem find_row {row : CommandRow} (mem : row ∈ CMDS) :
    CMDS.find? (fun other => other.name = row.name) = some row := by
  have found : (CMDS.find? fun other => other.name = row.name).isSome :=
    List.find?_isSome.mpr ⟨row, mem, decide_eq_true rfl⟩
  obtain ⟨other, found⟩ := Option.isSome_iff_exists.mp found
  have named : other.name = row.name := by simpa using List.find?_some found
  have distinct : (CMDS.map CommandRow.name).Nodup := by decide
  rw [found, List.inj_on_of_nodup_map distinct (List.mem_of_find?_eq_some found) mem named]

theorem parseLine_eq_ok : parseLine line = .ok command ↔ ∃ row ∈ CMDS, ∃ args,
    tokens 32 [] line = row.name :: args ∧ (∀ token ∈ args, isOption token → ValidOption token) ∧
      (positional args).length ≤ 2 ∧ row.argc.all (· = (positional args).length) ∧
      command = args.foldl Cmd.take { code := row.code } := by
  have count : ∀ {code args}, (positional args).length ≤ 2 →
      (args.foldl Cmd.take { code }).argc = (positional args).length :=
    fun few => congrArg Prod.fst (stored_of_few few)
  constructor
  · intro parsed
    unfold parseLine at parsed
    split at parsed
    · cases parsed
    · rename_i name args split
      split at parsed
      · cases parsed
      · rename_i row found
        have named : row.name = name := by simpa using List.find?_some found
        split at parsed
        · cases parsed
        · rename_i result taken
          obtain ⟨valid, few, rfl⟩ := (parseArgs_eq_ok (Nat.zero_le 2)).mp taken
          rw [Nat.zero_add] at few
          split_ifs at parsed with arity
          cases parsed
          rw [count few] at arity
          exact ⟨row, List.mem_of_find?_eq_some found, args, by rw [split, named], valid, few, arity, rfl⟩
  · rintro ⟨row, mem, args, split, valid, few, arity, rfl⟩
    have taken : parseArgs row { code := row.code } args =
        .ok (args.foldl Cmd.take { code := row.code }) :=
      (parseArgs_eq_ok (Nat.zero_le 2)).mpr ⟨valid, by rwa [Nat.zero_add], rfl⟩
    unfold parseLine
    rw [split]
    dsimp only
    rw [find_row mem]
    dsimp only
    rw [taken]
    dsimp only
    rw [count few, if_pos arity]

/-- The command holds the name and the arguments of the line byte for byte. -/
structure Exact (line : CStr) (command : Cmd) : Prop where
  code : ∃ row ∈ CMDS, (tokens 32 [] line).head? = some row.name ∧ command.code = row.code
  argc : command.argc = (positional (tokens 32 [] line).tail).length
  buf : command.buf = (positional (tokens 32 [] line).tail)[0]?.getD []
  buf2 : command.buf2 = (positional (tokens 32 [] line).tail)[1]?.getD []

theorem snprintf_eq_self_iff {size : Nat} {src : CStr} (room : 0 < size) :
    snprintf size src = src ↔ src.length < size := by
  constructor
  · intro whole
    rw [← whole]
    exact snprintf_length_lt src room
  · exact snprintf_eq_self

/-- An accepted line is stored in full just where no argument outgrows its buffer. -/
theorem exact_iff (accepted : parseLine line = .ok command) : Exact line command ↔
    ∀ token ∈ positional (tokens 32 [] line).tail, token.length < PATH_MAX := by
  obtain ⟨row, mem, args, split, -, few, -, rfl⟩ := parseLine_eq_ok.mp accepted
  have stored := @stored_of_few row.code _ few
  have argc := congrArg Prod.fst stored
  have buf := congrArg (Prod.fst ∘ Prod.snd) stored
  have buf2 := congrArg (Prod.snd ∘ Prod.snd) stored
  simp only [Cmd.stored, Function.comp_apply] at argc buf buf2
  have whole : ∀ i : Nat, snprintf PATH_MAX ((positional args)[i]?.getD []) = (positional args)[i]?.getD [] ↔
      ∀ token : CStr, (positional args)[i]? = some token → token.length < PATH_MAX := by
    intro i
    rw [snprintf_eq_self_iff (by decide)]
    cases (positional args)[i]? with
    | none => simp [PATH_MAX]
    | some token => simp
  have both : (∀ token ∈ positional args, token.length < PATH_MAX) ↔
      ∀ i < 2, ∀ token : CStr, (positional args)[i]? = some token → token.length < PATH_MAX := by
    constructor
    · intro all i _ token here
      exact all token (List.mem_of_getElem? here)
    · intro all token mem
      obtain ⟨i, small, here⟩ := List.mem_iff_getElem.mp mem
      exact all i (by omega) token (by rw [List.getElem?_eq_getElem small, here])
  rw [split, List.tail_cons, both]
  constructor
  · rintro ⟨-, -, first, second⟩ i small
    rw [← whole]
    rw [split, List.tail_cons] at first second
    interval_cases i
    · rw [← buf, first]
    · rw [← buf2, second]
  · intro all
    refine ⟨⟨row, mem, by rw [split]; rfl, foldl_code _ _⟩, ?_, ?_, ?_⟩
    · rw [split, argc, List.tail_cons]
    · rw [split, buf, List.tail_cons]
      exact (whole 0).mpr (all 0 (by decide))
    · rw [split, buf2, List.tail_cons]
      exact (whole 1).mpr (all 1 (by decide))

theorem exact_delete : Exact (cstr "delete notes.txt")
    { code := .delete, argc := 1, buf := cstr "notes.txt" } :=
  (exact_iff (by decide)).mpr (by decide)

/-- A token as long as a buffer loses its end. -/
theorem argument_shortened : ¬ ∀ line command, parseLine line = .ok command → Exact line command := by
  intro all
  let token : CStr := 97 :: List.replicate 4095 97
  let row : CommandRow := ⟨cstr "delete", .delete, some 1, cstr "delete <path>"⟩
  have plain : (32 : UInt8) ∉ token := by
    intro space
    have others := (List.mem_cons.mp space).resolve_left (by decide)
    exact absurd (List.eq_of_mem_replicate others) (by decide)
  have split : tokens 32 [] (cstr "delete" ++ 32 :: token) = [row.name, token] := by
    rw [tokens_append, tokens_name plain (List.cons_ne_nil _ _)]
    rfl
  have argument : isOption token = false := rfl
  have alone : positional [token] = [token] := by simp [positional, argument]
  have mem : row ∈ CMDS := List.mem_of_getElem? (i := 3) rfl
  have accepted : parseLine (cstr "delete" ++ 32 :: token) =
      .ok ([token].foldl Cmd.take { code := .delete }) := by
    refine parseLine_eq_ok.mpr ⟨row, mem, [token], split, ?_, ?_, ?_, rfl⟩
    · intro other mem option
      rw [List.mem_singleton.mp mem, argument] at option
      cases option
    · rw [alone]
      decide
    · rw [alone]
      rfl
  have short := (exact_iff accepted).mp (all _ _ accepted) token
    (by rw [split, List.tail_cons, alone]; exact List.mem_singleton_self token)
  rw [List.length_cons, List.length_replicate] at short
  exact lt_irrefl _ short

end line

section rearranged

variable {line line' name : CStr} {args args' : List CStr} {command : Cmd}

theorem foldl_take_perm {code : Command} (same : args.Perm args')
    (arguments : positional args = positional args')
    (offsets : args.filter isOffset = args'.filter isOffset) :
    args.foldl Cmd.take { code } = args'.foldl Cmd.take { code } := by
  have stored : (args.foldl Cmd.take { code }).stored = (args'.foldl Cmd.take { code }).stored := by
    rw [foldl_stored, foldl_stored, arguments]
  have background : (args.foldl Cmd.take { code }).isBackground =
      (args'.foldl Cmd.take { code }).isBackground := by
    rw [foldl_flag _ _ Cmd.isBackground _ take_isBackground,
      foldl_flag _ _ Cmd.isBackground _ take_isBackground, decide_eq_decide.mpr same.mem_iff]
  have dir : (args.foldl Cmd.take { code }).isDir = (args'.foldl Cmd.take { code }).isDir := by
    rw [foldl_flag _ _ Cmd.isDir _ take_isDir, foldl_flag _ _ Cmd.isDir _ take_isDir,
      decide_eq_decide.mpr same.mem_iff]
  have offset : (args.foldl Cmd.take { code }).offset = (args'.foldl Cmd.take { code }).offset := by
    rw [foldl_offset, foldl_offset, offsets]
  have codes : (args.foldl Cmd.take { code }).code = (args'.foldl Cmd.take { code }).code := by
    rw [foldl_code, foldl_code]
  generalize args.foldl Cmd.take { code } = left at *
  generalize args'.foldl Cmd.take { code } = right at *
  cases left
  cases right
  simp_all [Cmd.stored]

theorem parseLine_perm (split : tokens 32 [] line = name :: args)
    (split' : tokens 32 [] line' = name :: args') (same : args.Perm args')
    (arguments : positional args = positional args')
    (offsets : args.filter isOffset = args'.filter isOffset)
    (accepted : parseLine line = .ok command) : parseLine line' = .ok command := by
  obtain ⟨row, mem, args, split₀, valid, few, arity, rfl⟩ := parseLine_eq_ok.mp accepted
  rw [split] at split₀
  obtain ⟨rfl, rfl⟩ := List.cons.inj split₀
  refine parseLine_eq_ok.mpr ⟨row, mem, args', split', ?_, arguments ▸ few, arguments ▸ arity, ?_⟩
  · exact fun token here => valid token (same.mem_iff.mpr here)
  · exact foldl_take_perm same arguments offsets

theorem tokens_spaces (before after : CStr) (extra : Nat) :
    tokens 32 [] (before ++ List.replicate (extra + 1) 32 ++ after) =
      tokens 32 [] (before ++ 32 :: after) := by
  induction extra with
  | zero => rw [List.append_assoc]; rfl
  | succ extra ih =>
    rw [← ih, List.append_assoc, List.append_assoc, List.replicate_succ, List.cons_append,
      tokens_append, List.replicate_succ, List.cons_append, tokens_append]
    congr 1

/-- Options may stand anywhere among the arguments, and spaces may be repeated. -/
theorem options_anywhere (command : Cmd) :
    (∀ {line line' name args args'}, tokens 32 [] line = name :: args →
      tokens 32 [] line' = name :: args' → args.Perm args' → positional args = positional args' →
      args.filter isOffset = args'.filter isOffset →
        (parseLine line = .ok command ↔ parseLine line' = .ok command)) ∧
    ∀ before after extra, parseLine (before ++ List.replicate (extra + 1) 32 ++ after) = .ok command ↔
      parseLine (before ++ 32 :: after) = .ok command := by
  constructor
  · intro line line' name args args' split split' same arguments offsets
    exact ⟨parseLine_perm split split' same arguments offsets,
      parseLine_perm split' split same.symm arguments.symm offsets.symm⟩
  · intro before after extra
    unfold parseLine
    rw [tokens_spaces]

theorem options_anywhere_upload :
    parseLine (cstr "upload -b notes.txt x") = .ok
      { code := .uploadBegin, isBackground := true, argc := 2, buf := cstr "notes.txt", buf2 := cstr "x" } ↔
    parseLine (cstr "upload notes.txt  x -b") = .ok
      { code := .uploadBegin, isBackground := true, argc := 2, buf := cstr "notes.txt", buf2 := cstr "x" } := by
  refine @(options_anywhere _).1 _ _ (cstr "upload") [cstr "-b", cstr "notes.txt", cstr "x"]
    [cstr "notes.txt", cstr "x", cstr "-b"] ?_ ?_ ?_ ?_ ?_ <;> decide

end rearranged

section numbers

variable {space sign digits number : CStr}

structure Numeral (number space sign digits : CStr) : Prop where
  whole : number = space ++ (sign ++ digits)
  space : ∀ c ∈ space, isSpace c = true
  sign : sign = [] ∨ sign = cstr "+" ∨ sign = cstr "-"
  filled : digits ≠ []
  digits : ∀ c ∈ digits, isDigit 10 c = true

def signed (sign digits : CStr) : Int :=
  if sign = cstr "-" then -(digitsValue 10 digits : Int) else digitsValue 10 digits

theorem isDigit_plain {c : UInt8} (digit : isDigit 10 c = true) :
    isSpace c = false ∧ c ≠ 45 ∧ c ≠ 43 := by
  simp only [isDigit, Bool.and_eq_true, decide_eq_true_eq] at digit
  refine ⟨?_, ?_, ?_⟩
  · simp only [isSpace, Bool.or_eq_false_iff, Bool.and_eq_false_iff, decide_eq_false_iff_not,
      ← UInt8.toNat_inj, UInt8.le_iff_toNat_le, not_le]
    exact ⟨by simp; omega, .inr (by simp; omega)⟩
  · rintro rfl
    exact absurd digit (by decide)
  · rintro rfl
    exact absurd digit (by decide)

theorem Numeral.strtol_eq (h : Numeral number space sign digits) :
    strtol 10 number =
      { value := max (-LONG_MAX - 1) (min LONG_MAX (signed sign digits))
        rest := []
        range := signed sign digits < -LONG_MAX - 1 || LONG_MAX < signed sign digits } := by
  obtain ⟨c, more, same⟩ := List.exists_cons_of_ne_nil h.filled
  have first := isDigit_plain (h.digits c (by rw [same]; exact List.mem_cons_self))
  have all : digits.takeWhile (isDigit 10) = digits := List.takeWhile_eq_self_iff.mpr h.digits
  have none : digits.dropWhile (isDigit 10) = [] := List.dropWhile_eq_nil_iff.mpr h.digits
  have body : number.dropWhile isSpace = sign ++ digits := by
    rw [h.whole, List.dropWhile_append_of_pos h.space]
    rcases h.sign with rfl | rfl | rfl
    · rw [List.nil_append, same]
      exact List.dropWhile_cons_of_neg (by simp [first.1])
    · rfl
    · rfl
  unfold strtol signed
  simp only [body]
  rcases h.sign with rfl | rfl | rfl
  · have head : digits.head? = some c := by rw [same, List.head?_cons]
    simp only [List.nil_append, head, Option.some.injEq, first.2.1, first.2.2, or_self, if_false,
      all, none, h.filled]
    simp [cstr]
  · have head : (cstr "+" ++ digits).head? = some 43 := rfl
    have tail : (cstr "+" ++ digits).tail = digits := rfl
    have plus : cstr "+" ≠ cstr "-" := by decide
    simp only [head, tail, or_true, if_true, all, none, h.filled, if_false, if_neg plus]
    simp
  · have head : (cstr "-" ++ digits).head? = some 45 := rfl
    have tail : (cstr "-" ++ digits).tail = digits := rfl
    simp only [head, tail, true_or, if_true, all, none, h.filled, if_false]

/-- What `strtol` takes for the digits. -/
def unsigned (body : CStr) : CStr :=
  if body.head? = some 45 ∨ body.head? = some 43 then body.tail else body

theorem strtol_rest (number : CStr) : (strtol 10 number).rest =
    if (unsigned (number.dropWhile isSpace)).takeWhile (isDigit 10) = [] then number
    else (unsigned (number.dropWhile isSpace)).dropWhile (isDigit 10) := by
  unfold strtol
  dsimp only
  rw [← unsigned]
  split_ifs <;> rfl

theorem numeral_of_strtol (read : (strtol 10 number).rest ≠ number)
    (whole : (strtol 10 number).rest = []) : ∃ space sign digits, Numeral number space sign digits := by
  have parts : number.takeWhile isSpace ++ number.dropWhile isSpace = number :=
    List.takeWhile_append_dropWhile
  have spaces : ∀ c ∈ number.takeWhile isSpace, isSpace c = true :=
    fun c hc => List.mem_takeWhile_imp hc
  rw [strtol_rest] at read whole
  set body := number.dropWhile isSpace
  split_ifs at read whole with none
  · exact absurd rfl read
  · have digits : ∀ c ∈ unsigned body, isDigit 10 c = true := List.dropWhile_eq_nil_iff.mp whole
    have filled : unsigned body ≠ [] := by
      intro nothing
      rw [nothing] at none
      exact none rfl
    have split : ∃ sign, body = sign ++ unsigned body ∧
        (sign = [] ∨ sign = cstr "+" ∨ sign = cstr "-") := by
      unfold unsigned
      split_ifs with dash
      · rcases dash with dash | plus
        · exact ⟨cstr "-", (List.cons_head?_tail dash).symm, .inr (.inr rfl)⟩
        · exact ⟨cstr "+", (List.cons_head?_tail plus).symm, .inr (.inl rfl)⟩
      · exact ⟨[], rfl, .inl rfl⟩
    obtain ⟨sign, split, known⟩ := split
    exact ⟨_, sign, _, by rw [← split, parts], spaces, known, filled, digits⟩

/-- The text of an offset that fits a `long` and is not negative. -/
def OffsetNumber (number : CStr) : Prop :=
  ∃ space sign digits, Numeral number space sign digits ∧ 0 ≤ signed sign digits ∧
    signed sign digits ≤ LONG_MAX

theorem offsetValue_isSome {token : CStr} : (offsetValue token).isSome ↔
    isOffset token ∧ OffsetNumber (token.drop 8) := by
  have clamp : ∀ {v : Int}, 0 ≤ v → v ≤ LONG_MAX → max (-LONG_MAX - 1) (min LONG_MAX v) = v := by
    intro v positive fits
    simp only [LONG_MAX] at *
    omega
  constructor
  · intro some
    unfold offsetValue at some
    dsimp only at some
    split_ifs at some with h
    case neg => cases some
    obtain ⟨option, range, read, whole, positive⟩ := h
    obtain ⟨space, sign, digits, numeral⟩ := numeral_of_strtol read whole
    rw [numeral.strtol_eq] at range positive
    simp only [Bool.or_eq_false_iff, decide_eq_false_iff_not, not_lt] at range
    refine ⟨option, space, sign, digits, numeral, ?_, range.2⟩
    simp only [LONG_MAX] at range positive
    omega
  · rintro ⟨option, space, sign, digits, numeral, positive, fits⟩
    have range : ¬ signed sign digits < -LONG_MAX - 1 := by
      simp only [LONG_MAX]
      omega
    have filled : ([] : CStr) ≠ token.drop 8 := by
      rw [numeral.whole]
      intro empty
      exact numeral.filled (List.append_eq_nil_iff.mp (List.append_eq_nil_iff.mp empty.symm).2).2
    unfold offsetValue
    dsimp only
    rw [numeral.strtol_eq, if_pos ⟨option, by simp [range, fits], filled, rfl, by rwa [clamp positive fits]⟩]
    rfl

end numbers

section grammar

/-- As many arguments as the row says; a variable number ends with the buffers. -/
def arityFits (row : CommandRow) (arguments : Nat) : Prop :=
  match row.argc with
  | some expected => arguments = expected
  | none => arguments ≤ 2

def knownOption (token : CStr) : Prop :=
  token = cstr "-b" ∨ token = cstr "-d" ∨
    ∃ number, token = cstr "-offset=" ++ number ∧ OffsetNumber number

theorem validOption_iff {token : CStr} : ValidOption token ↔ knownOption token := by
  unfold ValidOption knownOption
  rw [offsetValue_isSome]
  refine or_congr_right (or_congr_right ⟨?_, ?_⟩)
  · rintro ⟨option, number⟩
    have named : token.take 8 = cstr "-offset=" := of_decide_eq_true option
    exact ⟨token.drop 8, by rw [← named, List.take_append_drop], number⟩
  · rintro ⟨number, rfl, valid⟩
    exact ⟨rfl, valid⟩

/-- The lines `parse_command` accepts: a name of the table, as many arguments as its row says, and
options from one list that all commands share. -/
theorem parseLine_accepts_iff (line : CStr) : (∃ command, parseLine line = .ok command) ↔
    ∃ row ∈ CMDS, ∃ args, tokens 32 [] line = row.name :: args ∧
      arityFits row (positional args).length ∧
      ∀ token ∈ args, isOption token → knownOption token := by
  have atMost : ∀ row ∈ CMDS, row.argc.all (· ≤ 2) := by decide
  have arity : ∀ row ∈ CMDS, ∀ n, arityFits row n ↔ n ≤ 2 ∧ row.argc.all (· = n) := by
    intro row mem n
    have small := atMost row mem
    unfold arityFits
    cases expected : row.argc with
    | none => simp
    | some m =>
      rw [expected] at small
      simp only [Option.all_some, decide_eq_true_eq] at small ⊢
      omega
  constructor
  · rintro ⟨command, accepted⟩
    obtain ⟨row, mem, args, split, valid, few, fits, -⟩ := parseLine_eq_ok.mp accepted
    exact ⟨row, mem, args, split, (arity row mem _).mpr ⟨few, fits⟩,
      fun token here option => validOption_iff.mp (valid token here option)⟩
  · rintro ⟨row, mem, args, split, fits, known⟩
    obtain ⟨few, fits⟩ := (arity row mem _).mp fits
    exact ⟨_, parseLine_eq_ok.mpr ⟨row, mem, args, split,
      fun token here option => validOption_iff.mpr (known token here option), few, fits, rfl⟩⟩

def shownOption (code : Command) (token : CStr) : Prop :=
  match code with
  | .create => token = cstr "-d"
  | .uploadBegin | .downloadBegin => token = cstr "-b"
  | .read | .write => ∃ number, token = cstr "-offset=" ++ number ∧ OffsetNumber number
  | _ => False

def shownArity (row : CommandRow) (arguments : Nat) : Prop :=
  match row.code with
  | .list => arguments ≤ 1
  | .exit => arguments = 0
  | _ => row.argc = some arguments

/-- The syntax lines are narrower: `list` takes a second argument. -/
theorem syntax_not_enforced : ¬ ∀ line, (∃ command, parseLine line = .ok command) ↔
    ∃ row ∈ CMDS, ∃ args, tokens 32 [] line = row.name :: args ∧
      shownArity row (positional args).length ∧
      ∀ token ∈ args, isOption token → shownOption row.code token := by
  intro all
  have accepted : parseLine (cstr "list a b") = .ok
      { code := .list, argc := 2, buf := cstr "a", buf2 := cstr "b" } := by decide
  obtain ⟨row, mem, args, split, arity, -⟩ := (all _).mp ⟨_, accepted⟩
  have names : tokens 32 [] (cstr "list a b") = [cstr "list", cstr "a", cstr "b"] := by decide
  rw [names] at split
  obtain ⟨named, rfl⟩ := List.cons.inj split
  have code : ∀ row ∈ CMDS, cstr "list" = row.name → row.code = .list := by decide
  rw [shownArity, code row mem named] at arity
  have few : (positional [cstr "a", cstr "b"]).length ≤ 1 := arity
  exact absurd few (by decide)

end grammar
end Csap
