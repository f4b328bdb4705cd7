import Liby.Infra.Cursor

/-!
# Paths

A path names its components one after the other. A `Place` is what is left of a path when `.` and
`..` are resolved lexically: where it starts, how many directories it goes up from there, and the
names it then goes down.
-/

namespace Infra

/-- A path without `.` and `..`. -/
structure Place where
  absolute : Bool
  up : Nat
  names : List Bytes
  deriving DecidableEq, Repr

namespace Place

/-- Where a relative path starts. -/
def here : Place := { absolute := false, up := 0, names := [] }

/-- A component more. There is nothing above the top of an absolute path. -/
def enter (p : Place) (name : Bytes) : Place :=
  if name = [] ∨ name = str "." then p
  else if name = str ".." then
    if p.names ≠ [] then { p with names := p.names.dropLast }
    else if p.absolute then p
    else { p with up := p.up + 1 }
  else { p with names := p.names ++ [name] }

/-- The components of a path, from a place on. -/
def resolve (p : Place) (names : List Bytes) : Place := names.foldl enter p

/-- What `q` is when it starts at `p`. -/
def follow (p q : Place) : Place where
  absolute := p.absolute
  up := if p.absolute then p.up else p.up + (q.up - p.names.length)
  names := p.names.take (p.names.length - q.up) ++ q.names

/-- A place at `root` or under it. -/
structure Below (root p : Place) : Prop where
  absolute : p.absolute = root.absolute
  up : p.up = root.up
  names : root.names <+: p.names

instance (root p : Place) : Decidable (Below root p) :=
  decidable_of_iff (p.absolute = root.absolute ∧ p.up = root.up ∧ root.names <+: p.names)
    ⟨fun h => ⟨h.1, h.2.1, h.2.2⟩, fun h => ⟨h.absolute, h.up, h.names⟩⟩

/--
The way `q` goes up no further than `p`, or it comes down again by the names of `p`.
-/
def Returns (p q : Place) : Prop :=
  (p.absolute = true ∨ q.up ≤ p.names.length) ∧ p.names.drop (p.names.length - q.up) <+: q.names

/-- From `p`, the way `q` comes to where the way `r` comes, or below. -/
def Leads (p r q : Place) : Prop :=
  (p.absolute = true ∨ q.up - p.names.length = r.up - p.names.length) ∧
    (p.follow r).names.drop (p.names.length - q.up) <+: q.names

instance (p q : Place) : Decidable (p.Returns q) := inferInstanceAs (Decidable (_ ∧ _))

instance (p r q : Place) : Decidable (p.Leads r q) := inferInstanceAs (Decidable (_ ∧ _))

variable {p q r : Place}

@[simp] theorem enter_absolute (p : Place) (name : Bytes) : (p.enter name).absolute = p.absolute := by
  unfold enter
  split
  · rfl
  · split
    · split
      · rfl
      · split <;> rfl
    · rfl

@[simp] theorem resolve_nil (p : Place) : p.resolve [] = p := rfl

theorem resolve_cons (p : Place) (name : Bytes) (names : List Bytes) :
    p.resolve (name :: names) = (p.enter name).resolve names := rfl

theorem resolve_append (p : Place) (names names' : List Bytes) :
    p.resolve (names ++ names') = (p.resolve names).resolve names' := List.foldl_append

@[simp] theorem follow_here (p : Place) : p.follow here = p := by
  unfold follow here
  simp

/-! ## A way from a place -/

theorem enter_up {name : Bytes} (h : name = str "..") : p.enter name =
    if p.names ≠ [] then { p with names := p.names.dropLast }
    else if p.absolute then p
    else { p with up := p.up + 1 } := by
  subst h
  unfold enter
  rw [if_neg (by decide), if_pos rfl]

/-- A step up that the way `q` cannot undo itself. -/
theorem follow_up (hnames : q.names = []) {name : Bytes}
    (h : name = str "..") : (p.follow q).enter name = p.follow { q with up := q.up + 1 } := by
  rw [enter_up h]
  unfold follow
  dsimp only
  rw [hnames, List.append_nil, List.append_nil]
  by_cases htop : p.names.length ≤ q.up
  · -- the way has left the names of `p` already
    rw [Nat.sub_eq_zero_of_le htop, Nat.sub_eq_zero_of_le (Nat.le_succ_of_le htop), List.take_zero,
      if_neg (not_not.mpr rfl)]
    cases p.absolute with
    | true => rfl
    | false =>
      have hup : q.up + 1 - p.names.length = q.up - p.names.length + 1 := Nat.sub_add_comm htop
      rw [if_neg Bool.false_ne_true, if_neg Bool.false_ne_true, if_neg Bool.false_ne_true, hup,
        Nat.add_assoc]
  · have hlt : q.up < p.names.length := Nat.lt_of_not_le htop
    have hne : p.names.take (p.names.length - q.up) ≠ [] := by
      rw [← List.length_pos_iff, List.length_take]
      omega
    have hshort : min (min (p.names.length - q.up) p.names.length - 1) (p.names.length - q.up) =
        p.names.length - (q.up + 1) := by omega
    rw [if_pos hne, List.dropLast_eq_take, List.length_take, List.take_take, hshort,
      Nat.sub_eq_zero_of_le hlt.le, Nat.sub_eq_zero_of_le hlt]

/-- A way goes on at the place it leads to. -/
theorem follow_enter (hq : q.absolute = false) (name : Bytes) :
    (p.follow q).enter name = p.follow (q.enter name) := by
  by_cases hstay : name = [] ∨ name = str "."
  · unfold enter
    rw [if_pos hstay, if_pos hstay]
  by_cases hup : name = str ".."
  · rw [enter_up (p := q) hup]
    by_cases hnames : q.names = []
    · rw [if_neg (not_not.mpr hnames), if_neg (by rw [hq]; exact Bool.false_ne_true),
        follow_up hnames hup]
    · have hne : (p.follow q).names ≠ [] := List.append_ne_nil_of_right_ne_nil _ hnames
      rw [if_pos hnames, enter_up hup, if_pos hne]
      unfold follow
      dsimp only
      rw [List.dropLast_append_of_ne_nil hnames]
  · unfold enter
    rw [if_neg hstay, if_neg hup, if_neg hstay, if_neg hup]
    unfold follow
    dsimp only
    rw [List.append_assoc]

theorem resolve_follow (p : Place) : ∀ (names : List Bytes) {q : Place}, q.absolute = false →
    (p.follow q).resolve names = p.follow (q.resolve names)
  | [], _, _ => rfl
  | name :: names, q, hq => by
    rw [resolve_cons, resolve_cons, follow_enter hq]
    exact resolve_follow p names (by rw [enter_absolute, hq])

/-- **Components lead from a place where they lead by themselves.** -/
theorem resolve_eq_follow (p : Place) (names : List Bytes) :
    p.resolve names = p.follow (here.resolve names) := by
  have h := resolve_follow p names (q := here) rfl
  rwa [follow_here] at h

/-! ## Below a place -/

theorem prefix_append_iff {α : Type _} {l front back : List α} (h : front <+: l ∨ l <+: front) :
    l <+: front ++ back ↔ l.drop front.length <+: back := by
  rcases h with ⟨rest, rfl⟩ | h
  · rw [List.prefix_append_right_inj, List.drop_left]
  · rw [List.drop_of_length_le h.length_le]
    exact iff_of_true (h.trans (List.prefix_append front back)) List.nil_prefix

/-- **Whether a way comes to a place or below, where the place is at most a step away.** -/
theorem below_follow_iff (hr : r.up = 0 ∨ r.up = 1 ∧ r.names = []) :
    Below (p.follow r) (p.follow q) ↔ p.Leads r q := by
  have hlen : (p.names.take (p.names.length - q.up)).length = p.names.length - q.up := by
    rw [List.length_take]
    omega
  have hnames : (p.follow r).names <+: (p.follow q).names ↔
      (p.follow r).names.drop (p.names.length - q.up) <+: q.names := by
    rw [← hlen]
    refine prefix_append_iff ?_
    show _ <+: p.names.take _ ++ r.names ∨ p.names.take _ ++ r.names <+: _
    rcases hr with hr | ⟨hr, hnil⟩
    · rw [hr, Nat.sub_zero, List.take_length]
      exact .inl ((List.take_prefix _ _).trans (List.prefix_append _ _))
    · rw [hr, hnil, List.append_nil]
      rcases Nat.eq_zero_or_pos q.up with hq | hq
      · rw [hq, Nat.sub_zero, List.take_length]
        exact .inr (List.take_prefix _ _)
      · exact .inl (List.take_prefix_take_left (by omega))
  unfold Leads
  rw [← hnames]
  constructor
  · intro h
    have hup := h.up
    unfold follow at hup
    dsimp only at hup
    refine ⟨?_, h.names⟩
    cases habs : p.absolute with
    | true => exact .inl rfl
    | false =>
      rw [habs, if_neg Bool.false_ne_true, if_neg Bool.false_ne_true] at hup
      exact .inr (Nat.add_left_cancel hup)
  · rintro ⟨hup, hprefix⟩
    refine ⟨rfl, ?_, hprefix⟩
    unfold follow
    dsimp only
    rcases hup with habs | hup
    · rw [if_pos habs, if_pos habs]
    · rw [hup]

/-- **A way from a place comes to it or below exactly if it returns.** -/
theorem below_iff_returns : Below p (p.follow q) ↔ p.Returns q := by
  have h := @below_follow_iff p q here (.inl rfl)
  rw [follow_here] at h
  rw [h]
  unfold Leads Returns
  rw [follow_here]
  refine and_congr_left' (or_congr_right ?_)
  show q.up - p.names.length = 0 - p.names.length ↔ _
  rw [Nat.zero_sub, Nat.sub_eq_zero_iff_le]

end Place

/-! ## Paths as bytes -/

namespace Path

/-- `/`. -/
def slash : UInt8 := 47

/-- The components of a path. -/
def components (path : Bytes) : List Bytes := path.splitOn slash

/-- Where the components of a path start. -/
def start (path : Bytes) : Place := { Place.here with absolute := path.head? = some slash }

/-- A path, resolved lexically. -/
def normalise (path : Bytes) : Place := (start path).resolve (components path)

/-- A path as a way from anywhere. -/
def way (path : Bytes) : Place := Place.here.resolve (components path)

/-- What comes after the last slash. -/
def basename (path : Bytes) : Bytes := path.rtakeWhile (· ≠ slash)

/-- What comes before it. -/
def dirname (path : Bytes) : Place :=
  (start path).resolve (components (path.rdropWhile (· ≠ slash)))

theorem components_slash (path rest : Bytes) :
    components (path ++ slash :: rest) = components path ++ components rest :=
  List.splitOn_append_cons_self path rest

@[simp] theorem components_nil : components [] = [[]] := List.splitOn_nil slash

/-- The components before the last slash, and those after it. -/
theorem resolve_dirname (p : Place) (path rest : Bytes) :
    p.resolve (components (path.rdropWhile (· ≠ slash) ++ rest)) =
      (p.resolve (components (path.rdropWhile (· ≠ slash)))).resolve (components rest) := by
  cases hdir : path.rdropWhile (· ≠ slash) using List.reverseRecOn with
  | nil =>
    rw [List.nil_append, components_nil]
    rfl
  | append_singleton dir c =>
    have hc : c = slash := by
      have hne : path.rdropWhile (· ≠ slash) ≠ [] := by
        rw [hdir]
        exact List.concat_ne_nil c dir
      have hlast := List.rdropWhile_last_not (· ≠ slash) path hne
      simpa only [hdir, List.getLast_concat, decide_eq_true_eq, not_not] using hlast
    rw [hc, List.append_assoc, List.singleton_append, components_slash, components_slash,
      components_nil, Place.resolve_append, Place.resolve_append]
    rfl

theorem resolve_absolute : ∀ (names : List Bytes) (p : Place), (p.resolve names).absolute = p.absolute
  | [], _ => rfl
  | name :: names, p => by
    rw [Place.resolve_cons, resolve_absolute names, Place.enter_absolute]

/-- A single component goes up at most once. -/
theorem way_basename (path : Bytes) : (way (basename path)).up = 0 ∨
    (way (basename path)).up = 1 ∧ (way (basename path)).names = [] := by
  have hno : slash ∉ basename path := fun hmem => by
    simpa using List.mem_rtakeWhile_imp hmem
  have hsingle : way (basename path) = Place.here.enter (basename path) := by
    unfold way components
    rw [List.splitOn_eq_singleton hno]
    rfl
  rw [hsingle]
  unfold Place.enter Place.here
  split
  · exact .inl rfl
  · split
    · exact .inr ⟨rfl, rfl⟩
    · exact .inl rfl

/--
What follows a path stays below it. After a slash it goes on from there; without one it is glued to
the last component, and the two together start from the directory.
-/
def StaysBelow (root : Bytes) : Bytes → Prop
  | [] => True
  | c :: rest =>
    if c = slash then root ≠ [] ∧ (normalise root).Returns (way rest)
    else (dirname root).Leads (way (basename root)) (way (basename root ++ c :: rest))

instance (root : Bytes) : ∀ target, Decidable (StaysBelow root target)
  | [] => isTrue trivial
  | c :: _ => inferInstanceAs (Decidable (if c = slash then _ else _))

theorem start_append {root : Bytes} (h : root ≠ []) (rest : Bytes) :
    start (root ++ rest) = start root := by
  obtain ⟨c, root, rfl⟩ := List.exists_cons_of_ne_nil h
  rfl

/-- **Whether a path with something after it is below it.** -/
theorem below_append_iff (root : Bytes) : ∀ target : Bytes,
    Place.Below (normalise root) (normalise (root ++ target)) ↔ StaysBelow root target
  | [] => by
    rw [List.append_nil]
    exact iff_of_true ⟨rfl, rfl, List.prefix_refl _⟩ trivial
  | c :: rest => by
    rw [StaysBelow]
    split
    · next hc =>
      subst hc
      by_cases hroot : root = []
      · subst hroot
        refine iff_of_false (fun h => ?_) (fun h => h.1 rfl)
        have habs := h.absolute
        unfold normalise at habs
        rw [resolve_absolute, resolve_absolute] at habs
        cases habs
      · rw [and_iff_right hroot, ← Place.below_iff_returns]
        unfold normalise
        rw [start_append hroot, components_slash, Place.resolve_append]
        exact iff_of_eq (congrArg _ (Place.resolve_eq_follow _ _))
    · next hc =>
      have hstart : start (root ++ c :: rest) = start root := by
        by_cases hroot : root = []
        · subst hroot
          unfold start
          simp [hc]
        · exact start_append hroot _
      have hsplit : ∀ tail : Bytes, (start root).resolve (components (root ++ tail)) =
          (dirname root).follow (way (basename root ++ tail)) := by
        intro tail
        have hroot : root ++ tail = root.rdropWhile (· ≠ slash) ++ (basename root ++ tail) := by
          unfold basename
          rw [← List.append_assoc, List.rdropWhile_append_rtakeWhile]
        unfold way
        rw [← Place.resolve_eq_follow, hroot, resolve_dirname]
        rfl
      have hself := hsplit []
      rw [List.append_nil, List.append_nil] at hself
      rw [← Place.below_follow_iff (way_basename root), ← hsplit, ← hself]
      unfold normalise
      rw [hstart]

end Path

end Infra
