import Csap.FileTree
import Csap.Paths

/-! Paths as strings: the route a path takes through a tree, and the canonical
path of a place. -/

namespace Csap

open FileTree

def ProperName (s : CStr) : Prop := s ≠ [] ∧ 47 ∉ s ∧ s ≠ cstr "." ∧ s ≠ cstr ".."

instance (s : CStr) : Decidable (ProperName s) :=
  inferInstanceAs (Decidable (s ≠ [] ∧ 47 ∉ s ∧ s ≠ cstr "." ∧ s ≠ cstr ".."))

abbrev FileName := { s : CStr // ProperName s }

def stepOf (s : CStr) : Step FileName :=
  if proper : ProperName s then .down ⟨s, proper⟩
  else if s = cstr ".." then .up
  else .here

/-- A slash at the end asks for a directory. -/
def route (path : CStr) : Route FileName where
  absolute := path.head? = some 47
  steps := (tokens 47 [] path).map stepOf ++
    if path.getLast? = some 47 then [.here] else []

def spell (p : Place FileName) : CStr := p.reverse.flatMap fun n => 47 :: n.1

def render (p : Place FileName) : CStr := if p = [] then cstr "/" else spell p

def entry (d : Place FileName) (s : CStr) : CStr := spell d ++ 47 :: s

section spelling

variable {p d : Place FileName} {s x y : CStr}

@[simp] theorem spell_nil : spell [] = [] := rfl

theorem spell_cons (n : FileName) (d : Place FileName) : spell (n :: d) = entry d n.1 := by
  simp [spell, entry]

theorem spell_append (r p : Place FileName) : spell (r ++ p) = spell p ++ spell r := by
  simp [spell]

theorem render_cons (n : FileName) (d : Place FileName) : render (n :: d) = entry d n.1 := by
  rw [render, if_neg (List.cons_ne_nil n d), spell_cons]

theorem head_spell (proper : p ≠ []) : (spell p).head? = some 47 := by
  obtain ⟨n, d, same⟩ := List.exists_cons_of_ne_nil (List.reverse_ne_nil_iff.mpr proper)
  simp [spell, same]

theorem head_render (p : Place FileName) : (render p).head? = some 47 := by
  unfold render
  split
  · rfl
  · rename_i proper
    exact head_spell proper

theorem head_entry (d : Place FileName) (s : CStr) : (entry d s).head? = some 47 := by
  unfold entry
  by_cases root : d = []
  · rw [root]
    rfl
  · rw [List.head?_append, head_spell root]
    rfl

theorem tokens_plain {delim : UInt8} {token : CStr} (plain : delim ∉ x) (y : CStr) :
    tokens delim token (x ++ y) = tokens delim (token ++ x) y := by
  induction x generalizing token with
  | nil => simp
  | cons c x ih =>
    have other : c ≠ delim := fun same => plain (List.mem_cons.mpr (.inl same.symm))
    have rest : delim ∉ x := fun h => plain (List.mem_cons_of_mem c h)
    rw [List.cons_append, tokens, if_neg other, ih rest, List.append_assoc, List.singleton_append]

theorem tokens_append {delim : UInt8} (token x y : CStr) :
    tokens delim token (x ++ delim :: y) = tokens delim token x ++ tokens delim [] y := by
  induction x generalizing token with
  | nil =>
    have here : tokens delim token (delim :: y) =
        if token = [] then tokens delim [] y else token :: tokens delim [] y := by
      rw [tokens, if_pos rfl]
    rw [List.nil_append, here]
    by_cases empty : token = [] <;> simp [empty, tokens]
  | cons c x ih =>
    rw [List.cons_append, tokens, tokens]
    split_ifs with stop empty
    · exact ih []
    · rw [ih, List.cons_append]
    · exact ih (token ++ [c])

theorem tokens_name {delim : UInt8} (plain : delim ∉ s) (some : s ≠ []) :
    tokens delim [] s = [s] := by
  have whole : tokens delim [] (s ++ []) = tokens delim ([] ++ s) [] := tokens_plain plain []
  simpa [tokens, some] using whole

theorem tokens_spell (p : Place FileName) : tokens 47 [] (spell p) = p.reverse.map Subtype.val := by
  induction p with
  | nil => rfl
  | cons n d ih =>
    rw [spell_cons, entry, tokens_append, ih, tokens_name n.2.2.1 n.2.1]
    simp

theorem tokens_entry (plain : 47 ∉ s) (some : s ≠ []) :
    tokens 47 [] (entry d s) = d.reverse.map Subtype.val ++ [s] := by
  rw [entry, tokens_append, tokens_spell, tokens_name plain some]

@[simp] theorem stepOf_name (n : FileName) : stepOf n.1 = .down n := dif_pos n.2

theorem map_stepOf (names : List FileName) :
    (names.map Subtype.val).map stepOf = names.map .down := by
  rw [List.map_map]
  exact List.map_congr_left fun n _ => stepOf_name n

theorem getLast_entry (plain : 47 ∉ s) : (entry d s).getLast? ≠ some 47 ∨ s = [] := by
  by_cases empty : s = []
  · exact .inr empty
  · refine .inl fun last => ?_
    rw [entry, List.getLast?_append_of_ne_nil _ (List.cons_ne_nil _ _)] at last
    have inside : s.getLast? = some 47 := by
      rw [← last, List.getLast?_cons_of_ne_nil empty]
    exact plain (List.mem_of_getLast? inside)

theorem route_entry (plain : 47 ∉ s) (some : s ≠ []) :
    route (entry d s) = { absolute := true, steps := straight d ++ [stepOf s] } := by
  have last := (getLast_entry (d := d) plain).resolve_right some
  simp only [route, head_entry, decide_true, tokens_entry plain some, List.map_append, map_stepOf,
    if_neg last, List.append_nil, straight, List.map_cons, List.map_nil]

theorem route_render (proper : p ≠ []) : route (render p) = { absolute := true, steps := straight p } := by
  obtain ⟨n, d, rfl⟩ := List.exists_cons_of_ne_nil proper
  rw [render_cons, route_entry n.2.2.1 n.2.1]
  simp [straight]

theorem getLast_spell {n : FileName} : (spell (n :: d)).getLast? ≠ some 47 := by
  rw [spell_cons]
  exact (getLast_entry n.2.2.1).resolve_right n.2.1

theorem stripSlashes_render (p : Place FileName) : stripSlashes (render p) = spell p := by
  cases p with
  | nil => rfl
  | cons n d =>
    rw [render, if_neg (List.cons_ne_nil n d), stripSlashes, List.rdropWhile_eq_self_iff]
    intro some
    have last := getLast_spell (n := n) (d := d)
    rw [List.getLast?_eq_getLast_of_ne_nil some] at last
    simpa using last

theorem tokens_render (p : Place FileName) : tokens 47 [] (render p) = p.reverse.map Subtype.val := by
  unfold render
  split
  · rename_i root
    rw [root]
    rfl
  · exact tokens_spell p

/-- The prefix test compares whole names. -/
theorem insideRoot_iff {h v : Place FileName} : insideRoot (spell h) (render v) = true ↔ h <:+ v := by
  have split : insideRoot (spell h) (render v) = true ↔
      ∃ rest, render v = spell h ++ rest ∧ (rest.head? = some 47 ∨ rest = []) := by
    simp only [insideRoot, Bool.and_eq_true, Bool.or_eq_true, decide_eq_true_eq]
    constructor
    · rintro ⟨taken, next⟩
      refine ⟨_, ?_, next⟩
      have parts := List.take_append_drop (spell h).length (render v)
      rw [taken] at parts
      exact parts.symm
    · rintro ⟨rest, same, next⟩
      simpa [same] using next
  rw [split]
  constructor
  · rintro ⟨rest, same, next⟩
    have names := tokens_render v
    have listed : ∃ more, v.reverse.map Subtype.val = h.reverse.map Subtype.val ++ more := by
      rcases next with slash | rfl
      · obtain ⟨tail, rfl⟩ := List.head?_eq_some_iff.mp slash
        rw [same, tokens_append, tokens_spell] at names
        exact ⟨_, names.symm⟩
      · rw [same, List.append_nil, tokens_spell] at names
        exact ⟨[], by rw [← names, List.append_nil]⟩
    obtain ⟨more, listed⟩ := listed
    obtain ⟨first, last, split, same, -⟩ := List.map_eq_append_iff.mp listed
    rw [List.map_inj_right fun _ _ => Subtype.ext] at same
    rw [← List.reverse_prefix, ← same, split]
    exact List.prefix_append first last
  · rintro ⟨r, rfl⟩
    by_cases top : r ++ h = []
    · obtain ⟨rfl, rfl⟩ := List.append_eq_nil_iff.mp top
      exact ⟨cstr "/", rfl, .inl rfl⟩
    · rw [render, if_neg top, spell_append]
      refine ⟨spell r, rfl, ?_⟩
      by_cases none : r = []
      · exact .inr (by rw [none, spell_nil])
      · exact .inl (head_spell none)

theorem rdropWhile_cons {c : UInt8} (y : CStr) (plain : c ∉ x) :
    (y ++ c :: x).rdropWhile (· ≠ c) = y ++ [c] := by
  have others : ∀ b ∈ x.reverse, decide (b ≠ c) = true := by
    intro b hb
    refine decide_eq_true ?_
    rintro rfl
    exact plain (List.mem_reverse.mp hb)
  rw [List.rdropWhile, List.reverse_append, List.reverse_cons, List.append_assoc,
    List.dropWhile_append_of_pos others]
  simp

theorem tokens_stripSlashes (path : CStr) : tokens 47 [] (stripSlashes path) = tokens 47 [] path := by
  induction path using List.reverseRecOn with
  | nil => rfl
  | append_singleton path c ih =>
    by_cases slash : c = 47
    · rw [slash, stripSlashes, List.rdropWhile_concat_pos _ _ _ (by decide)]
      rw [tokens_append]
      rw [stripSlashes] at ih
      rw [ih]
      simp [tokens]
    · rw [stripSlashes, List.rdropWhile_concat_neg _ _ _ (by simpa using slash)]

theorem getLast_stripSlashes (path : CStr) : (stripSlashes path).getLast? ≠ some 47 := by
  intro last
  have some : stripSlashes path ≠ [] := by
    intro empty
    rw [empty] at last
    cases last
  have stop := List.rdropWhile_last_not (fun c : UInt8 => decide (c = 47)) path some
  rw [List.getLast?_eq_getLast_of_ne_nil some] at last
  simp only [decide_eq_true_eq] at stop
  exact stop (Option.some.inj last)

theorem head_stripSlashes {path : CStr} (some : stripSlashes path ≠ []) :
    (stripSlashes path).head? = path.head? := by
  obtain ⟨rest, same⟩ := List.rdropWhile_prefix (fun c : UInt8 => decide (c = 47)) path
  obtain ⟨c, tail, whole⟩ := List.exists_cons_of_ne_nil some
  rw [stripSlashes] at whole ⊢
  rw [whole] at same ⊢
  rw [← same]
  rfl

theorem route_stripSlashes (path : CStr) :
    ∃ trailing, (trailing = [] ∨ trailing = [Step.here]) ∧
      (route path).steps = (tokens 47 [] (stripSlashes path)).map stepOf ++ trailing := by
  refine ⟨if path.getLast? = Option.some 47 then [.here] else [], by split <;> simp, ?_⟩
  rw [tokens_stripSlashes]
  rfl

theorem basename_entry (plain : 47 ∉ s) (named : s ≠ []) : basename (entry d s) = s := by
  have last := (getLast_entry (d := d) plain).resolve_right named
  have whole : stripSlashes (entry d s) = entry d s := by
    rw [stripSlashes, List.rdropWhile_eq_self_iff]
    intro some slash
    rw [List.getLast?_eq_getLast_of_ne_nil some, of_decide_eq_true slash] at last
    exact last rfl
  have some : entry d s ≠ [] := by simp [entry]
  have parts : (entry d s).rdropWhile (· ≠ 47) ++ (entry d s).rtakeWhile (· ≠ 47) = entry d s :=
    List.rdropWhile_append_rtakeWhile
  rw [basename, if_neg some, whole, if_neg some]
  rw [entry, rdropWhile_cons _ plain, List.append_assoc] at parts
  exact List.cons.inj (List.append_cancel_left parts) |>.2

structure Splits (path : CStr) (base trailing : List (Step FileName)) : Prop where
  steps : (route path).steps = base ++ stepOf (basename path) :: trailing
  trailing : trailing = [] ∨ trailing = [.here]
  absolute : (route (dirname path)).absolute = (route path).absolute
  directory : (route (dirname path)).steps = base ∨
    base = [] ∧ (route (dirname path)).steps = [.here]
  plain : 47 ∉ basename path
  some : basename path ≠ []
  named : dirname path ≠ []

section last

variable {path : CStr}

def parentPart (path : CStr) : CStr := (stripSlashes path).rdropWhile (· ≠ 47)

theorem basename_eq (some : stripSlashes path ≠ []) :
    basename path = (stripSlashes path).rtakeWhile (· ≠ 47) := by
  have nonempty : path ≠ [] := by
    rintro rfl
    exact some rfl
  simp only [basename, nonempty, some, if_false]

theorem parentPart_basename (some : stripSlashes path ≠ []) :
    parentPart path ++ basename path = stripSlashes path := by
  rw [basename_eq some]
  exact List.rdropWhile_append_rtakeWhile

theorem basename_no_slash (some : stripSlashes path ≠ []) : 47 ∉ basename path := by
  intro slash
  rw [basename_eq some] at slash
  simpa using List.mem_rtakeWhile_imp slash

theorem basename_ne_nil (some : stripSlashes path ≠ []) : basename path ≠ [] := by
  intro empty
  rw [basename_eq some, List.rtakeWhile_eq_nil_iff] at empty
  have stop := empty some
  have last := getLast_stripSlashes path
  rw [List.getLast?_eq_getLast_of_ne_nil some] at last
  simp only [ne_eq, decide_not, Bool.not_eq_true, Bool.not_eq_false', decide_eq_true_eq] at stop
  exact last (congrArg Option.some stop)

theorem parentPart_slash (top : parentPart path ≠ []) : ∃ x, parentPart path = x ++ [47] := by
  obtain ⟨x, c, ended⟩ := (List.eq_nil_or_concat (parentPart path)).resolve_left top
  have stop : ¬ decide ((parentPart path).getLast top ≠ 47) = true :=
    List.rdropWhile_last_not (fun c : UInt8 => decide (c ≠ 47)) (stripSlashes path) top
  have value : (parentPart path).getLast? = some c := by simp [ended]
  rw [List.getLast?_eq_getLast_of_ne_nil top, Option.some.injEq] at value
  obtain rfl : c = 47 := by simpa [value] using stop
  exact ⟨x, by rw [ended, List.concat_eq_append]⟩

theorem tokens_parentPart (some : stripSlashes path ≠ []) (top : parentPart path ≠ []) :
    tokens 47 [] (stripSlashes path) = tokens 47 [] (parentPart path) ++ [basename path] := by
  obtain ⟨x, ended⟩ := parentPart_slash top
  rw [← parentPart_basename some, ended, List.append_assoc, List.singleton_append, tokens_append,
    tokens_append, tokens_name (basename_no_slash some) (basename_ne_nil some)]
  simp [tokens]

theorem head_parentPart (some : stripSlashes path ≠ []) (top : parentPart path ≠ []) :
    (parentPart path).head? = path.head? := by
  rw [← head_stripSlashes some, ← parentPart_basename some, List.head?_append_of_ne_nil _ top]

theorem dirname_eq (path : CStr) : dirname path = (if parentPart path = [] then
    (if path.head? = some 47 then cstr "/" else cstr ".")
    else if stripSlashes (parentPart path) = [] then cstr "/"
    else stripSlashes (parentPart path)) :=
  rfl

theorem splits_alone (some : stripSlashes path ≠ []) (top : parentPart path = []) :
    ∃ base trailing, Splits path base trailing := by
  obtain ⟨trailing, short, whole⟩ := route_stripSlashes path
  have plain := basename_no_slash some
  have filled := basename_ne_nil some
  have parts := parentPart_basename some
  rw [top, List.nil_append] at parts
  have relative : path.head? ≠ Option.some 47 := by
    rw [← head_stripSlashes some, ← parts]
    intro slash
    exact plain (List.mem_of_mem_head? slash)
  have dir : dirname path = cstr "." := by rw [dirname_eq, if_pos top, if_neg relative]
  refine ⟨[], trailing, ?_, short, ?_, .inr ⟨rfl, ?_⟩, plain, filled, ?_⟩
  · rw [whole, ← parts, tokens_name plain filled]
    rfl
  · rw [dir]
    simp only [route, decide_eq_false relative]
    rfl
  · rw [dir]
    rfl
  · rw [dir]
    decide

theorem splits_root (some : stripSlashes path ≠ []) (top : parentPart path ≠ [])
    (root : stripSlashes (parentPart path) = []) : ∃ base trailing, Splits path base trailing := by
  obtain ⟨trailing, short, whole⟩ := route_stripSlashes path
  have dir : dirname path = cstr "/" := by rw [dirname_eq, if_neg top, if_pos root]
  have above : tokens 47 [] (parentPart path) = [] := by
    rw [← tokens_stripSlashes, root]
    rfl
  have absolute : path.head? = Option.some 47 := by
    obtain ⟨a, tail, same⟩ := List.exists_cons_of_ne_nil top
    have all := List.rdropWhile_eq_nil_iff.mp root a (by simp [same])
    rw [← head_parentPart some top, same, List.head?_cons, of_decide_eq_true all]
  refine ⟨[], trailing, ?_, short, ?_, .inr ⟨rfl, ?_⟩, basename_no_slash some, basename_ne_nil some, ?_⟩
  · rw [whole, tokens_parentPart some top, above]
    rfl
  · rw [dir]
    simp only [route, decide_eq_true absolute]
    rfl
  · rw [dir]
    rfl
  · rw [dir]
    decide

theorem splits_below (some : stripSlashes path ≠ []) (top : parentPart path ≠ [])
    (below : stripSlashes (parentPart path) ≠ []) : ∃ base trailing, Splits path base trailing := by
  obtain ⟨trailing, short, whole⟩ := route_stripSlashes path
  have dir : dirname path = stripSlashes (parentPart path) := by
    rw [dirname_eq, if_neg top, if_neg below]
  refine ⟨(tokens 47 [] (parentPart path)).map stepOf, trailing, ?_, short, ?_, .inl ?_,
    basename_no_slash some, basename_ne_nil some, ?_⟩
  · rw [whole, tokens_parentPart some top, List.map_append, List.append_assoc]
    rfl
  · rw [dir]
    simp only [route, head_stripSlashes below, head_parentPart some top]
  · rw [dir]
    simp only [route, if_neg (getLast_stripSlashes (parentPart path)), tokens_stripSlashes,
      List.append_nil]
  · rw [dir]
    exact below

theorem splits (some : stripSlashes path ≠ []) : ∃ base trailing, Splits path base trailing := by
  by_cases top : parentPart path = []
  · exact splits_alone some top
  · by_cases root : stripSlashes (parentPart path) = []
    · exact splits_root some top root
    · exact splits_below some top root

end last

end spelling

def MAXSYMLINKS : Nat := 40

/-- Where a path leads from a working directory, which may have been removed. -/
def resolve (t : Hierarchy FileName) (cwd : Option (Place FileName)) (follow : Bool) (path : CStr) :
    Except Trouble (Place FileName) :=
  if path = [] then .error .missing
  else
    match (if (route path).absolute then some [] else cwd) with
    | none => .error .missing
    | some p => t.walk follow MAXSYMLINKS p (route path).steps

section resolution

variable {t : Hierarchy FileName} {cwd : Option (Place FileName)} {follow : Bool} {path : CStr}
  {p d : Place FileName}

theorem resolve_canonical (inside : t.get p.tail = some .directory)
    (plain : follow = true → ¬ t.Links p) : resolve t cwd follow (render p) = .ok p := by
  have named : render p ≠ [] := by
    intro empty
    have head := head_render p
    rw [empty] at head
    cases head
  have start : (route (render p)).absolute = true := decide_eq_true (head_render p)
  rw [resolve, if_neg named, if_pos start]
  dsimp only
  by_cases root : p = []
  · have steps : (route (render p)).steps = [.here] := by
      rw [root]
      rfl
    rw [steps, root, Hierarchy.walk_here t.root, Hierarchy.walk_eq]
    rfl
  · rw [route_render root]
    exact Hierarchy.walk_straight inside plain

theorem route_slashes (some : path ≠ []) (slashes : stripSlashes path = []) :
    route path = { absolute := true, steps := [.here] } := by
  have all := List.rdropWhile_eq_nil_iff.mp slashes
  have first : path.head? = .some 47 := by
    obtain ⟨c, rest, rfl⟩ := List.exists_cons_of_ne_nil some
    rw [List.head?_cons, of_decide_eq_true (all c List.mem_cons_self)]
  have last : path.getLast? = .some 47 := by
    rw [List.getLast?_eq_getLast_of_ne_nil some, of_decide_eq_true (all _ (List.getLast_mem some))]
  have names : tokens 47 [] path = [] := by
    rw [← tokens_stripSlashes, slashes]
    rfl
  simp [route, first, last, names]

theorem resolve_slashes (some : path ≠ []) (slashes : stripSlashes path = []) :
    resolve t cwd follow path = .ok [] := by
  rw [resolve, if_neg some, route_slashes some slashes, if_pos rfl]
  dsimp only
  rw [Hierarchy.walk_here t.root, Hierarchy.walk_eq]
  rfl

theorem route_steps_ne_nil (some : path ≠ []) : (route path).steps ≠ [] := by
  by_cases slashes : stripSlashes path = []
  · rw [route_slashes some slashes]
    exact List.cons_ne_nil _ _
  · obtain ⟨base, trailing, parts⟩ := splits slashes
    rw [parts.steps]
    simp

theorem resolve_walks {q : Place FileName} (led : resolve t cwd follow path = .ok q) :
    ∃ p, t.get p = some .directory ∧ t.walk follow MAXSYMLINKS p (route path).steps = .ok q := by
  unfold resolve at led
  split at led
  · cases led
  · rename_i named
    split at led
    · cases led
    · rename_i p start
      refine ⟨p, ?_, led⟩
      obtain ⟨step, rest, same⟩ := List.exists_cons_of_ne_nil (route_steps_ne_nil named)
      by_contra outside
      rw [same, Hierarchy.walk_outside outside] at led
      cases led

theorem resolve_plain {q : Place FileName} (led : resolve t cwd true path = .ok q) : ¬ t.Links q := by
  obtain ⟨p, inside, walked⟩ := resolve_walks led
  exact Hierarchy.walk_plain inside walked

theorem resolve_absolute {t' : Hierarchy FileName} {cwd' : Option (Place FileName)}
    (absolute : path.head? = some 47) (same : t'.get = t.get) :
    resolve t' cwd' follow path = resolve t cwd follow path := by
  have start : (route path).absolute = true := decide_eq_true absolute
  simp only [resolve, if_pos start]
  split
  · rfl
  · exact Hierarchy.walk_congr same

theorem resolve_entry {s : CStr} (inside : t.get d = some .directory) (plain : 47 ∉ s) (named : s ≠ []) :
    resolve t cwd follow (entry d s) = t.walk follow MAXSYMLINKS d [stepOf s] := by
  have some : entry d s ≠ [] := by
    intro empty
    have head := head_entry d s
    rw [empty] at head
    cases head
  rw [resolve, if_neg some, route_entry plain named]
  exact Hierarchy.walk_from inside

theorem entry_inside {s : CStr} {q : Place FileName} (above : t.get d.tail = some .directory)
    (unlinked : ¬ t.Links d) (plain : 47 ∉ s) (named : s ≠ [])
    (led : resolve t cwd follow (entry d s) = .ok q) : t.get d = some .directory := by
  have some : entry d s ≠ [] := by simp [entry]
  rw [resolve, if_neg some, route_entry plain named] at led
  obtain ⟨d', walked, inside⟩ := Hierarchy.walk_prefix led (List.cons_ne_nil _ _)
  rw [Hierarchy.walk_straight above fun _ => unlinked] at walked
  cases walked
  exact inside

theorem resolve_agree {t' : Hierarchy FileName} {x q : Place FileName}
    (same : ∀ p, p ≠ x → t'.get p = t.get p) (old : t.get x ≠ some .directory)
    (unlinked : ¬ t.Links x) (new : ¬ t'.Links x) (led : resolve t cwd follow path = .ok q) :
    resolve t' cwd follow path = .ok q := by
  unfold resolve at led ⊢
  split
  · rename_i empty
    rw [if_pos empty] at led
    cases led
  · rename_i some
    rw [if_neg some] at led
    split
    · rename_i gone
      rw [gone] at led
      cases led
    · rename_i p start
      rw [start] at led
      exact Hierarchy.walk_agree same old unlinked new led

theorem resolve_follow {q : Place FileName} (led : resolve t cwd false path = .ok q)
    (unlinked : ¬ t.Links q) : resolve t cwd true path = .ok q := by
  unfold resolve at led ⊢
  split
  · rename_i empty
    rw [if_pos empty] at led
    cases led
  · rename_i some
    rw [if_neg some] at led
    split
    · rename_i gone
      rw [gone] at led
      cases led
    · rename_i p start
      rw [start] at led
      exact Hierarchy.walk_follow led unlinked

theorem resolve_of_dirname (some : stripSlashes path ≠ [])
    (led : resolve t cwd true (dirname path) = .ok d) (found : t.get d ≠ none) :
    ∃ fewer ≤ MAXSYMLINKS, ∃ trailing, (trailing = [] ∨ trailing = [Step.here]) ∧ ∀ follow,
      resolve t cwd follow path = t.walk follow fewer d (stepOf (basename path) :: trailing) := by
  obtain ⟨base, trailing, parts⟩ := splits some
  have nonempty : path ≠ [] := by
    rintro rfl
    exact some rfl
  rw [resolve, if_neg parts.named, parts.absolute] at led
  simp only [resolve, if_neg nonempty, parts.steps]
  cases start : (if (route path).absolute = true then Option.some [] else cwd) with
  | none =>
    rw [start] at led
    cases led
  | some p =>
    rw [start] at led
    dsimp only at led ⊢
    rcases parts.directory with steps | ⟨top, steps⟩
    · rw [steps] at led
      obtain ⟨fewer, le, same⟩ := Hierarchy.walk_append led found
      exact ⟨fewer, le, trailing, parts.trailing, fun follow =>
        same follow _ (List.cons_ne_nil _ _)⟩
    · rw [steps] at led
      have inside : t.get p = .some .directory := by
        by_contra outside
        rw [Hierarchy.walk_outside outside] at led
        cases led
      rw [Hierarchy.walk_here inside, Hierarchy.walk_eq] at led
      cases led
      exact ⟨MAXSYMLINKS, le_rfl, trailing, parts.trailing, fun follow => by rw [top, List.nil_append]⟩

/-- Where the last name leads from its directory, the whole path leads, unless it takes too many
links, or a slash at its end asks for a directory. -/
theorem resolve_of_entry {q : Place FileName} (some : stripSlashes path ≠ [])
    (led : resolve t cwd true (dirname path) = .ok d) (inside : t.get d = .some .directory)
    (there : resolve t cwd true (entry d (basename path)) = .ok q) (found : t.get q ≠ none) :
    resolve t cwd true path = .ok q ∨ resolve t cwd true path = .error .loop ∨
      resolve t cwd true path = .error .notDirectory := by
  obtain ⟨base, trailing', parts⟩ := splits some
  rw [resolve_entry inside parts.plain parts.some] at there
  obtain ⟨fewer, le, trailing, short, same⟩ :=
    resolve_of_dirname some led (by rw [inside]; exact Option.some_ne_none _)
  rw [same true]
  by_cases loop : t.walk true fewer d (stepOf (basename path) :: trailing) = .error .loop
  · exact .inr (.inl loop)
  · rw [← Hierarchy.walk_mono le loop]
    rcases short with rfl | rfl
    · exact .inl there
    · obtain ⟨fewer', -, further⟩ := Hierarchy.walk_append there found
      have onwards := further true [.here] (List.cons_ne_nil _ _)
      rw [List.singleton_append] at onwards
      rw [onwards]
      by_cases dir : t.get q = .some .directory
      · rw [Hierarchy.walk_here dir, Hierarchy.walk_eq]
        exact .inl rfl
      · exact .inr (.inr (Hierarchy.walk_outside dir _))

theorem resolve_dots (some : stripSlashes path ≠ []) (dots : basename path = cstr "..")
    (led : resolve t cwd true (dirname path) = .ok d) (found : t.get d ≠ none) :
    resolve t cwd true path = .error .notDirectory ∨
      ∃ q, resolve t cwd true path = .ok q ∧ t.get q = .some .directory := by
  obtain ⟨fewer, -, trailing, short, same⟩ := resolve_of_dirname some led found
  have up : stepOf (basename path) = .up := by
    rw [dots]
    rfl
  rw [same true, up]
  by_cases inside : t.get d = .some .directory
  · have above := Hierarchy.parent_directory inside
    refine .inr ⟨d.tail, ?_, above⟩
    rw [Hierarchy.walk_up inside]
    rcases short with rfl | rfl
    · rw [Hierarchy.walk_eq]
      rfl
    · rw [Hierarchy.walk_here above, Hierarchy.walk_eq]
      rfl
  · exact .inl (Hierarchy.walk_outside inside _)

end resolution

/-- The home of alice is `/srv/alice`. -/
def srv : FileName := ⟨cstr "srv", by decide⟩

def alice : FileName := ⟨cstr "alice", by decide⟩

end Csap
