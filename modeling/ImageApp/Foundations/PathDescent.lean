import Mathlib.Data.List.Basic
import Mathlib.Tactic.Common

/-!
# Walking the components of a path

A path is a list of symbols, and `components` cuts it at a separator symbol. `descend` walks the
components from a starting level: an empty component and a single dot are neutral, a double dot goes
one level up, and every other component goes one level down. The walk is `none` as soon as it leaves
level zero upwards, so `StaysInside` says that the path never goes above its start.

A path without dots never goes up (`exists_descend_of_notMem_dot`), and a component that holds a
symbol other than the dot always goes down (`descend_cons_of_proper`). A path that is too short to
hold enough double dots cannot climb above the start (`isSome_descend_of_length_lt`).

`leadsTo` is the place that the walk ends in. Paths without empty components and dots are determined
by it (`eq_of_leadsTo_eq`), and paths that stay inside different directories never lead to the same
place (`StaysInside.leadsTo_ne`).
-/

set_option autoImplicit false
set_option relaxedAutoImplicit false

namespace ImageApp.Foundations.PathDescent

variable {α : Type*} [DecidableEq α]

/-- The components of a path, cut at the separator. -/
def components (separator : α) (path : List α) : List (List α) :=
  path.splitOn separator

/-- The level reached from `level` by walking the components, or `none` when the walk goes above
level zero. -/
def descend (dot : α) : ℕ → List (List α) → Option ℕ
  | level, [] => some level
  | level, component :: rest =>
    if component = [] ∨ component = [dot] then descend dot level rest
    else if component = [dot, dot] then
      match level with
      | 0 => none
      | level + 1 => descend dot level rest
    else descend dot (level + 1) rest

/-- Walking the components of the path never goes above the start. -/
def StaysInside (separator dot : α) (path : List α) : Prop :=
  (descend dot 0 (components separator path)).isSome = true

instance decidableStaysInside (separator dot : α) (path : List α) :
    Decidable (StaysInside separator dot path) :=
  inferInstanceAs (Decidable (_ = true))

/-! ### Components -/

/-- A path without separators is its own component. -/
theorem components_of_notMem {separator : α} {path : List α} (hpath : separator ∉ path) :
    components separator path = [path] :=
  List.splitOn_eq_singleton hpath

/-- A separator cuts the components in two. -/
theorem components_append_cons (separator : α) (first second : List α) :
    components separator (first ++ separator :: second) =
      components separator first ++ components separator second :=
  List.splitOn_append_cons_self first second

omit [DecidableEq α] in
/-- The symbols before a separator that they do not hold are determined by the whole. -/
theorem append_cons_inj {separator : α} {first second left right : List α}
    (hfirst : separator ∉ first) (hsecond : separator ∉ second)
    (heq : first ++ separator :: left = second ++ separator :: right) :
    first = second ∧ left = right := by
  induction first generalizing second with
  | nil =>
    cases second with
    | nil => exact ⟨rfl, (List.cons.inj heq).2⟩
    | cons symbol second => exact absurd ((List.cons.inj heq).1 ▸ List.mem_cons_self) hsecond
  | cons symbol first ih =>
    cases second with
    | nil => exact absurd ((List.cons.inj heq).1 ▸ List.mem_cons_self) hfirst
    | cons symbol' second =>
      rw [List.mem_cons, not_or] at hfirst hsecond
      obtain ⟨hsymbol, hrest⟩ := List.cons.inj heq
      obtain ⟨hshorter, hleft⟩ := ih hfirst.2 hsecond.2 hrest
      exact ⟨by rw [hsymbol, hshorter], hleft⟩

/-- Of two paths with the same ends around their only two separators, one occurs in the other only
when they are equal. -/
theorem eq_of_infix_between {separator : α} {front back body body' : List α}
    (hfront : separator ∉ front) (hback : separator ∉ back) (hbody : separator ∉ body)
    (hbody' : separator ∉ body')
    (hoccurs : front ++ separator :: (body ++ separator :: back) <:+:
      front ++ separator :: (body' ++ separator :: back)) : body = body' := by
  obtain ⟨before, after, heq⟩ := hoccurs
  have hcount := congrArg (List.count separator) heq
  simp only [List.count_append, List.count_cons_self, List.count_eq_zero.mpr hfront,
    List.count_eq_zero.mpr hback, List.count_eq_zero.mpr hbody,
    List.count_eq_zero.mpr hbody'] at hcount
  have hbefore : separator ∉ before ++ front := by
    rw [List.mem_append, not_or]
    exact ⟨List.count_eq_zero.mp (by omega), hfront⟩
  simp only [List.append_assoc, List.cons_append] at heq
  rw [← List.append_assoc] at heq
  obtain ⟨-, hrest⟩ := append_cons_inj hbefore hfront heq
  exact (append_cons_inj hbody hbody' hrest).1

/-- Cutting at the last separator of a path. -/
theorem eq_append_separator_cons (separator : α) (path : List α) :
    separator ∉ path ∨
      ∃ front last, path = front ++ separator :: last ∧ separator ∉ last := by
  induction path with
  | nil => exact Or.inl List.not_mem_nil
  | cons symbol rest ih =>
    rcases ih with hrest | ⟨front, last, rfl, hlast⟩
    · by_cases hsymbol : symbol = separator
      · exact Or.inr ⟨[], rest, by rw [hsymbol, List.nil_append], hrest⟩
      · apply Or.inl
        intro hmem
        rcases List.mem_cons.mp hmem with heq | hmem
        · exact hsymbol heq.symm
        · exact hrest hmem
    · exact Or.inr ⟨symbol :: front, last, by rw [List.cons_append], hlast⟩

/-! ### The walk -/

/-- The walk over a concatenation continues from the level the first part reaches. -/
theorem descend_append (dot : α) (level : ℕ) (first second : List (List α)) :
    descend dot level (first ++ second) =
      (descend dot level first).bind fun reached ↦ descend dot reached second := by
  induction first generalizing level with
  | nil => rfl
  | cons component rest ih =>
    simp only [List.cons_append, descend]
    split_ifs with hneutral hup
    · exact ih level
    · cases level with
      | zero => rfl
      | succ level => exact ih level
    · exact ih (level + 1)

/-- A component that holds a symbol other than the dot goes one level down. -/
theorem descend_cons_of_proper {dot symbol : α} {component : List α} (hsymbol : symbol ∈ component)
    (hproper : symbol ≠ dot) (level : ℕ) (rest : List (List α)) :
    descend dot level (component :: rest) = descend dot (level + 1) rest := by
  have hempty : component ≠ [] := List.ne_nil_of_mem hsymbol
  have hsingle : component ≠ [dot] := by
    rintro rfl
    exact hproper (List.mem_singleton.mp hsymbol)
  have hdouble : component ≠ [dot, dot] := by
    rintro rfl
    rcases List.mem_cons.mp hsymbol with heq | hmem
    · exact hproper heq
    · exact hproper (List.mem_singleton.mp hmem)
  simp [descend, hempty, hsingle, hdouble]

/-- The empty component is neutral. -/
@[simp] theorem descend_nil_cons (dot : α) (level : ℕ) (rest : List (List α)) :
    descend dot level ([] :: rest) = descend dot level rest := by
  simp [descend]

/-- A component without dots goes down exactly when it is not empty. -/
theorem descend_cons_of_notMem_dot {dot : α} {component : List α} (hdot : dot ∉ component)
    (level : ℕ) (rest : List (List α)) :
    descend dot level (component :: rest) =
      descend dot (level + if component = [] then 0 else 1) rest := by
  cases component with
  | nil => rw [if_pos rfl, descend_nil_cons, Nat.add_zero]
  | cons symbol tail =>
    rw [if_neg (List.cons_ne_nil symbol tail)]
    refine descend_cons_of_proper List.mem_cons_self ?_ level rest
    rintro rfl
    exact hdot List.mem_cons_self

/-- A path without dots only goes down, and it stays on its level exactly when it consists of
separators. -/
theorem exists_descend_of_notMem_dot (separator : α) {dot : α} {path : List α} (hdot : dot ∉ path)
    (level : ℕ) :
    ∃ depth, descend dot level (components separator path) = some (level + depth) ∧
      (depth = 0 ↔ ∀ symbol ∈ path, symbol = separator) := by
  induction hlength : path.length using Nat.strongRecOn generalizing path with
  | ind length ih =>
    rcases eq_append_separator_cons separator path with hnone | ⟨front, last, rfl, hlast⟩
    · refine ⟨if path = [] then 0 else 1, ?_, ?_⟩
      · rw [components_of_notMem hnone, descend_cons_of_notMem_dot hdot, descend]
      · cases path with
        | nil => simp
        | cons symbol rest =>
          have hsymbol : symbol ≠ separator := fun h ↦ hnone (h ▸ List.mem_cons_self)
          simp [hsymbol]
    · have hshorter : front.length < length := by
        rw [← hlength, List.length_append, List.length_cons]
        omega
      have hfront : dot ∉ front := fun h ↦ hdot (List.mem_append_left _ h)
      have hdotLast : dot ∉ last := fun h ↦
        hdot (List.mem_append_right _ (List.mem_cons_of_mem _ h))
      obtain ⟨depth, hdescend, hzero⟩ := ih front.length hshorter hfront rfl
      refine ⟨depth + if last = [] then 0 else 1, ?_, ?_⟩
      · rw [components_append_cons, descend_append, hdescend, Option.bind_some,
          components_of_notMem hlast, descend_cons_of_notMem_dot hdotLast, descend, Nat.add_assoc]
      · cases last with
        | nil =>
          rw [if_pos rfl, Nat.add_zero, hzero, List.forall_mem_append]
          simp
        | cons symbol rest =>
          have hsymbol : symbol ≠ separator := fun h ↦ hlast (h ▸ List.mem_cons_self)
          rw [if_neg (List.cons_ne_nil symbol rest), List.forall_mem_append]
          simp [hsymbol]

/-- Walking a path that starts with text free of dots is walking what is behind its last separator,
from the level the text reaches. That level is the start, with nothing behind the last separator,
exactly when the text consists of separators. -/
theorem exists_last_component (separator : α) {dot : α} {name : List α} (hdot : dot ∉ name) :
    ∃ depth last, separator ∉ last ∧ dot ∉ last ∧
      (∀ text, descend dot 0 (components separator (name ++ text)) =
        descend dot depth (components separator (last ++ text))) ∧
      (depth = 0 ∧ last = [] ↔ ∀ symbol ∈ name, symbol = separator) := by
  rcases eq_append_separator_cons separator name with hnone | ⟨front, last, rfl, hlast⟩
  · refine ⟨0, name, hnone, hdot, fun text ↦ rfl, ?_⟩
    cases name with
    | nil => simp
    | cons symbol rest =>
      have hsymbol : symbol ≠ separator := fun h ↦ hnone (h ▸ List.mem_cons_self)
      simp [hsymbol]
  · have hfront : dot ∉ front := fun h ↦ hdot (List.mem_append_left _ h)
    have hdotLast : dot ∉ last := fun h ↦ hdot (List.mem_append_right _ (List.mem_cons_of_mem _ h))
    obtain ⟨depth, hdescend, hzero⟩ := exists_descend_of_notMem_dot separator hfront 0
    rw [Nat.zero_add] at hdescend
    refine ⟨depth, last, hlast, hdotLast, ?_, ?_⟩
    · intro text
      rw [List.append_assoc, List.cons_append, components_append_cons, descend_append, hdescend,
        Option.bind_some]
    · rw [hzero, List.forall_mem_append, List.forall_mem_cons]
      cases last with
      | nil => simp
      | cons symbol rest =>
        have hsymbol : symbol ≠ separator := fun h ↦ hlast (h ▸ List.mem_cons_self)
        simp [hsymbol]

/-- A double dot and the separator behind it take three symbols, so a path that is too short for
`level + 1` double dots does not climb above the start from `level`. -/
theorem isSome_descend_of_length_lt (separator dot : α) {level : ℕ} {path : List α}
    (hlength : path.length < 3 * level + 2) :
    (descend dot level (components separator path)).isSome = true := by
  induction hsize : path.length using Nat.strongRecOn generalizing path level with
  | ind size ih =>
    by_cases hmem : separator ∈ path
    · obtain ⟨first, rest, rfl, hfirst⟩ := List.eq_append_cons_of_mem hmem
      rw [List.length_append, List.length_cons] at hlength hsize
      rw [components_append_cons, components_of_notMem hfirst, List.singleton_append]
      simp only [descend]
      split_ifs with hneutral hup
      · exact ih rest.length (by omega) (by omega) rfl
      · rw [hup, List.length_cons, List.length_singleton] at hlength hsize
        cases level with
        | zero => omega
        | succ level => exact ih rest.length (by omega) (by omega) rfl
      · exact ih rest.length (by omega) (by omega) rfl
    · rw [components_of_notMem hmem]
      simp only [descend]
      split_ifs with hneutral hup
      · rfl
      · rw [hup, List.length_cons, List.length_singleton] at hlength
        cases level with
        | zero => omega
        | succ level => rfl
      · rfl

/-- A path of at most two symbols leaves its start only when it is a double dot. -/
theorem staysInside_iff_of_length_le_two {separator dot : α} (hdistinct : separator ≠ dot)
    {path : List α} (hlength : path.length ≤ 2) :
    StaysInside separator dot path ↔ path ≠ [dot, dot] := by
  unfold StaysInside
  by_cases hmem : separator ∈ path
  · have hne : path ≠ [dot, dot] := by
      rintro rfl
      rcases List.mem_cons.mp hmem with heq | hmem
      · exact hdistinct heq
      · exact hdistinct (List.mem_singleton.mp hmem)
    obtain ⟨first, rest, rfl, hfirst⟩ := List.eq_append_cons_of_mem hmem
    rw [List.length_append, List.length_cons] at hlength
    have hsingle : first ≠ [dot, dot] := by
      rintro rfl
      rw [List.length_cons, List.length_singleton] at hlength
      omega
    refine iff_of_true ?_ hne
    rw [components_append_cons, components_of_notMem hfirst, List.singleton_append, descend,
      if_neg hsingle]
    split_ifs
    · exact isSome_descend_of_length_lt separator dot (by omega)
    · exact isSome_descend_of_length_lt separator dot (by omega)
  · rw [components_of_notMem hmem]
    by_cases hup : path = [dot, dot]
    · simp [hup, descend]
    · refine iff_of_true ?_ hup
      rw [descend, if_neg hup]
      split_ifs <;> rfl

/-- A path made of one proper piece and at most two symbols after its first separator stays on or
below the level it starts from. -/
theorem isSome_descend_of_proper (separator dot : α) (level : ℕ) {body tail : List α} {symbol : α}
    (hbody : separator ∉ body) (hsymbol : symbol ∈ body) (hproper : symbol ≠ dot)
    (htail : ∀ front rest, tail = front ++ separator :: rest → rest.length ≤ 2) :
    (descend dot level (components separator (body ++ tail))).isSome = true := by
  by_cases hmem : separator ∈ tail
  · obtain ⟨front, rest, rfl, hfront⟩ := List.eq_append_cons_of_mem hmem
    have hhead : separator ∉ body ++ front := by
      rw [List.mem_append, not_or]
      exact ⟨hbody, hfront⟩
    rw [← List.append_assoc, components_append_cons, components_of_notMem hhead,
      List.singleton_append, descend_cons_of_proper (List.mem_append_left _ hsymbol) hproper]
    have hrest := htail front rest rfl
    exact isSome_descend_of_length_lt separator dot (by omega)
  · have hnone : separator ∉ body ++ tail := by
      rw [List.mem_append, not_or]
      exact ⟨hbody, hmem⟩
    rw [components_of_notMem hnone, descend_cons_of_proper (List.mem_append_left _ hsymbol) hproper]
    rfl

/-! ### Where a path leads -/

/-- A component of the walk that keeps the names by which it went down, the last one first. A double
dot takes the last name back, and is kept when there is none. -/
def follow (dot : α) (place : List (List α)) (component : List α) : List (List α) :=
  if component = [] ∨ component = [dot] then place
  else if component = [dot, dot] ∧ place ≠ [] ∧ place.head? ≠ some [dot, dot] then place.tail
  else component :: place

/-- The place that a path leads to. Where there are no links, two paths name the same file exactly
when they lead to the same place. -/
def leadsTo (separator dot : α) (path : List α) : List (List α) :=
  (components separator path).foldl (follow dot) []

/-- A component that goes down. -/
def IsName (dot : α) (component : List α) : Prop :=
  component ≠ [] ∧ component ≠ [dot] ∧ component ≠ [dot, dot]

instance decidableIsName (dot : α) (component : List α) : Decidable (IsName dot component) :=
  inferInstanceAs (Decidable (_ ∧ _ ∧ _))

/-- A path every component of which goes down. -/
def Plain (separator dot : α) (path : List α) : Prop :=
  ∀ component ∈ components separator path, IsName dot component

instance decidablePlain (separator dot : α) (path : List α) :
    Decidable (Plain separator dot path) :=
  inferInstanceAs (Decidable (∀ component ∈ components separator path, _))

/-- A name is put in front of the others. -/
theorem follow_of_isName {dot : α} {component : List α} (hname : IsName dot component)
    (place : List (List α)) : follow dot place component = component :: place := by
  obtain ⟨hempty, hsingle, hdouble⟩ := hname
  simp [follow, hempty, hsingle, hdouble]

/-- A double dot takes the last name back. -/
theorem follow_double {dot : α} {name : List α} (hname : IsName dot name) (place : List (List α)) :
    follow dot (name :: place) [dot, dot] = place := by
  simp [follow, hname.2.2]

/-- Names are put in front of the others one by one. -/
theorem foldl_follow_of_isName {dot : α} {names : List (List α)}
    (hnames : ∀ name ∈ names, IsName dot name) (place : List (List α)) :
    names.foldl (follow dot) place = names.reverse ++ place := by
  induction names generalizing place with
  | nil => rfl
  | cons name names ih =>
    rw [List.foldl_cons, follow_of_isName (hnames name List.mem_cons_self),
      ih fun other hother ↦ hnames other (List.mem_cons_of_mem _ hother)]
    simp

/-- The walk through a directory goes on from the place of the directory. -/
theorem leadsTo_append_cons (separator dot : α) (directory path : List α) :
    leadsTo separator dot (directory ++ separator :: path) =
      (components separator path).foldl (follow dot) (leadsTo separator dot directory) := by
  rw [leadsTo, components_append_cons, List.foldl_append, leadsTo]

/-- The components determine the path. -/
theorem components_injective {separator : α} {first second : List α}
    (heq : components separator first = components separator second) : first = second :=
  calc first = [separator].intercalate (components separator first) :=
        (List.intercalate_splitOn separator).symm
    _ = [separator].intercalate (components separator second) := by rw [heq]
    _ = second := List.intercalate_splitOn separator

/-- Plain paths in a directory that lead to the same place are the same. -/
theorem eq_of_leadsTo_eq {separator dot : α} {directory first second : List α}
    (hfirst : Plain separator dot first) (hsecond : Plain separator dot second)
    (hplace : leadsTo separator dot (directory ++ separator :: first) =
      leadsTo separator dot (directory ++ separator :: second)) : first = second := by
  rw [leadsTo_append_cons, leadsTo_append_cons, foldl_follow_of_isName hfirst,
    foldl_follow_of_isName hsecond, List.append_left_inj, List.reverse_inj] at hplace
  exact components_injective hplace

/-- A walk that never goes above the start takes back only names by which it went down itself. -/
theorem exists_foldl_follow {dot : α} (place : List (List α)) {down walk : List (List α)}
    (hdown : ∀ name ∈ down, IsName dot name)
    (hinside : (descend dot down.length walk).isSome = true) :
    ∃ names, walk.foldl (follow dot) (down ++ place) = names ++ place := by
  induction walk generalizing down with
  | nil => exact ⟨down, rfl⟩
  | cons component walk ih =>
    rw [List.foldl_cons]
    simp only [descend] at hinside
    split_ifs at hinside with hneutral hdouble
    · rw [follow, if_pos hneutral]
      exact ih hdown hinside
    · cases down with
      | nil => simp at hinside
      | cons name down =>
        rw [hdouble, List.cons_append, follow_double (hdown name List.mem_cons_self)]
        exact ih (fun other hother ↦ hdown other (List.mem_cons_of_mem _ hother)) hinside
    · have hname : IsName dot component := ⟨(not_or.mp hneutral).1, (not_or.mp hneutral).2, hdouble⟩
      rw [follow_of_isName hname, ← List.cons_append]
      exact ih (List.forall_mem_cons.mpr ⟨hname, hdown⟩) hinside

/-- A path that stays inside its directory leads to a place there. -/
theorem StaysInside.exists_leadsTo {separator dot : α} {path : List α}
    (hinside : StaysInside separator dot path) (directory : List α) :
    ∃ names, leadsTo separator dot (directory ++ separator :: path) =
      names ++ leadsTo separator dot directory := by
  rw [leadsTo_append_cons]
  exact exists_foldl_follow (leadsTo separator dot directory)
    (fun _ hmem ↦ absurd hmem List.not_mem_nil) hinside

/-- Paths that stay inside two directories of the same depth lead to different places. -/
theorem StaysInside.leadsTo_ne {separator dot : α} {first second directory directory' : List α}
    (hfirst : StaysInside separator dot first) (hsecond : StaysInside separator dot second)
    (hdepth : (leadsTo separator dot directory).length = (leadsTo separator dot directory').length)
    (hne : leadsTo separator dot directory ≠ leadsTo separator dot directory') :
    leadsTo separator dot (directory ++ separator :: first) ≠
      leadsTo separator dot (directory' ++ separator :: second) := by
  obtain ⟨names, hnames⟩ := hfirst.exists_leadsTo directory
  obtain ⟨names', hnames'⟩ := hsecond.exists_leadsTo directory'
  rw [hnames, hnames']
  exact fun heq ↦ hne (List.append_inj' heq hdepth).2

/-- A plain path stays inside. -/
theorem Plain.staysInside {separator dot : α} {path : List α} (hplain : Plain separator dot path) :
    StaysInside separator dot path := by
  have hwalk : ∀ (names : List (List α)) level, (∀ name ∈ names, IsName dot name) →
      (descend dot level names).isSome = true := by
    intro names
    induction names with
    | nil => exact fun _ _ ↦ rfl
    | cons name names ih =>
      intro level hnames
      obtain ⟨hempty, hsingle, hdouble⟩ := hnames name List.mem_cons_self
      simp only [descend, hempty, hsingle, hdouble, or_self, if_false]
      exact ih _ fun other hother ↦ hnames other (List.mem_cons_of_mem _ hother)
  exact hwalk _ 0 hplain

end ImageApp.Foundations.PathDescent
