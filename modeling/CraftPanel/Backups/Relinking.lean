import CraftPanel.Backups.Confinement

/-!
# The links of a backup

`link_inside` and `step_over` of `backups/archive.rs` write the links of a surveyed tree anew, as
ways from their directories to where they land; `confine_link` accepts each of them while the
archive is unpacked.
-/

namespace CraftPanel.Backups

open Framework

section Stepping

def shared (a b : List String) : Nat := ((a.zip b).takeWhile fun (x, y) => x == y).length

/-- `step_over`, from one place to another. -/
def stepOver (start goal : List String) : List (Component String) :=
  let shared := shared start.reverse goal.reverse
  let way := List.replicate (start.length - shared) .up ++ (goal.reverse.drop shared).map .name
  if way.isEmpty then [.here] else way

/-- A path joined to a place, each `..` folded away. -/
def fold : List String → List (Component String) → List String
  | p, [] => p
  | p, .here :: rest => fold p rest
  | p, .up :: rest => fold p.tail rest
  | p, .name n :: rest => fold (n :: p) rest

@[simp] theorem fold_ups (p : List String) (k : Nat) (rest : List (Component String)) :
    fold p (List.replicate k .up ++ rest) = fold (p.drop k) rest := by
  induction k generalizing p with
  | zero => rfl
  | succ k ih => simp [List.replicate_succ, fold, ih]

@[simp] theorem fold_names (p ns : List String) :
    fold p (ns.map .name) = ns.reverse ++ p := by
  induction ns generalizing p with
  | nil => rfl
  | cons n ns ih => simp [fold, ih]

theorem take_shared (a b : List String) : a.take (shared a b) = b.take (shared a b) := by
  induction a generalizing b with
  | nil => simp [shared]
  | cons x a ih =>
    cases b with
    | nil => simp [shared]
    | cons y b =>
      by_cases h : x = y
      · simpa [shared, h] using ih b
      · simp [shared, h]

theorem shared_append (r a b : List String) :
    shared (r ++ a) (r ++ b) = r.length + shared a b := by
  induction r with
  | nil => simp
  | cons n r ih =>
    simp only [shared, List.cons_append, List.zip_cons_cons] at ih ⊢
    rw [List.takeWhile_cons_of_pos (by simp), List.length_cons, ih, List.length_cons]
    omega

theorem shared_le (a b : List String) : shared a b ≤ a.length := by
  have htake := (List.takeWhile_sublist (fun (x, y) => x == y) (l := a.zip b)).length_le
  have hzip := @List.length_zip _ _ a b
  unfold shared
  omega

variable (start goal : List String)

theorem drop_shared : start.drop (start.length - shared start.reverse goal.reverse) =
    (goal.reverse.take (shared start.reverse goal.reverse)).reverse := by
  rw [← take_shared, List.take_reverse, List.reverse_reverse]

theorem fold_stepOver : fold start (stepOver start goal) = goal := by
  have hway : fold start (List.replicate (start.length - shared start.reverse goal.reverse) .up ++
      (goal.reverse.drop (shared start.reverse goal.reverse)).map .name) = goal := by
    rw [fold_ups, fold_names, drop_shared, ← List.reverse_append, List.take_append_drop,
      List.reverse_reverse]
  unfold stepOver
  simp only
  split
  · rename_i hempty
    rw [List.isEmpty_iff.mp hempty] at hway
    exact hway
  · exact hway

theorem stepOver_ne_nil : stepOver start goal ≠ [] := by
  unfold stepOver
  simp only
  split
  · exact List.cons_ne_nil _ _
  · rename_i hsome
    simpa using hsome

theorem fold_take (k : Nat) :
    (fold start ((stepOver start goal).take k) <:+ start ∨
      fold start ((stepOver start goal).take k) <:+ goal) ∧
    start.drop (start.length - shared start.reverse goal.reverse) <:+
      fold start ((stepOver start goal).take k) := by
  generalize hups : start.length - shared start.reverse goal.reverse = ups
  generalize hnames : goal.reverse.drop (shared start.reverse goal.reverse) = names
  have hgoal : names.reverse ++ start.drop ups = goal := by
    rw [← hups, ← hnames, drop_shared, ← List.reverse_append, List.take_append_drop,
      List.reverse_reverse]
  simp only [stepOver, hups, hnames]
  split
  · have hfold : fold start ([Component.here].take k) = start := by cases k <;> simp [fold]
    rw [hfold]
    exact ⟨.inl (List.suffix_refl _), List.drop_suffix _ _⟩
  rw [List.take_append, List.take_replicate, List.length_replicate, ← List.map_take, fold_ups,
    fold_names]
  rcases Nat.le_total k ups with hk | hk
  · rw [Nat.min_eq_left hk, Nat.sub_eq_zero_of_le hk, List.take_zero, List.reverse_nil,
      List.nil_append]
    exact ⟨.inl (List.drop_suffix _ _), List.drop_suffix_drop_left _ hk⟩
  rw [Nat.min_eq_right hk]
  refine ⟨.inr ?_, List.suffix_append _ _⟩
  conv_rhs => rw [← hgoal]
  rw [List.suffix_append_self_iff, List.reverse_suffix]
  exact List.take_prefix _ _

variable {start goal}

theorem fold_take_below {root : List String} (hstart : root <:+ start) (hgoal : root <:+ goal)
    (k : Nat) : root <:+ fold start ((stepOver start goal).take k) := by
  obtain ⟨a, rfl⟩ := hstart
  obtain ⟨b, rfl⟩ := hgoal
  refine List.IsSuffix.trans ?_ (fold_take _ _ k).2
  rw [List.reverse_append, List.reverse_append, shared_append]
  refine ⟨a.drop (a.length - shared a.reverse b.reverse), ?_⟩
  have hle := shared_le a.reverse b.reverse
  rw [List.length_reverse] at hle
  rw [List.length_append, List.length_reverse, List.drop_append_of_le_length (by omega)]
  congr 2
  omega

theorem stepOver_append (a b root : List String) :
    stepOver (a ++ root) (b ++ root) = stepOver a b := by
  simp only [stepOver, List.reverse_append, shared_append, List.length_append, List.length_reverse]
  rw [List.drop_append, List.drop_of_length_le (by simp), List.length_reverse, Nat.add_comm a.length,
    Nat.add_sub_add_left, Nat.add_sub_cancel_left, List.nil_append]

end Stepping

/-- `link_inside`: a link is kept that lands in the tree, with the way from its directory. -/
def linkInside (t : FileTree String) (path : List String) :
    List String → Option (List (Component String))
  | [] => none
  | n :: parent => match t.resolve path, t.resolve parent with
    | .ok root, .ok start => match t.node (n :: start) with
      | some (.link target) =>
        match t.walk linkLimit [] (route (target.start start) ++ target.parts) with
        | .ok landed => if root.isSuffixOf landed then some (stepOver start landed) else none
        | .error _ => none
      | _ => none
    | _, _ => none

/-- What `survey` makes of what stands at a place below its root. -/
def surveyed (t : FileTree String) (path x : List String) : Option Entry :=
  match t.resolve path with
  | .error _ => none
  | .ok root => match t.node (x ++ root) with
    | none => none
    | some .directory => some ⟨⟨false, route x⟩, .directory⟩
    | some .file => some ⟨⟨false, route x⟩, .file⟩
    | some (.link _) => (linkInside t path (x ++ path)).map fun way =>
      ⟨⟨false, route x⟩, .symlink (some ⟨false, way⟩)⟩

/-- What has been unpacked has links only where the surveyed tree has them. -/
structure Mirrors (t : FileTree String) (root : List String) (t' : FileTree String)
    (root' : List String) : Prop where
  directory : t'.IsDirectory root'
  links : ∀ x target, t'.node (x ++ root') = some (.link target) →
    ∃ source, t.node (x ++ root) = some (.link source)

section Links

variable {t t' : FileTree String} {root root' path x : List String} {entry : Entry}

theorem land_of_plain {p : List String} {parts : List (Component String)}
    (h : ∀ k, t.Plain (fold p (parts.take k))) : land t p parts = fold p parts := by
  induction parts generalizing p with
  | nil => rfl
  | cons part parts ih =>
    have hrest : ∀ k, t.Plain (fold p ((part :: parts).take (k + 1))) := fun k => h (k + 1)
    cases part with
    | here => exact ih hrest
    | up => exact ih hrest
    | name n =>
      have hn : t.Plain (n :: p) := hrest 0
      simp only [land, fold]
      split
      · rename_i followed hfollowed
        rw [FileTree.resolve_of_plain hn hfollowed]
        exact ih hrest
      · exact ih hrest

theorem Mirrors.plain (h : Mirrors t root t' root') (hx : t.Plain (x ++ root)) :
    t'.Plain (x ++ root') := by
  intro q hq target hlink
  rcases List.suffix_or_suffix_of_suffix hq (List.suffix_append x root') with hroot | ⟨y, rfl⟩
  · simp [show t'.node q = _ from h.directory.suffix hroot] at hlink
  · have hy := (List.suffix_append_self_iff).mp hq
    obtain ⟨source, hsource⟩ := h.links y target hlink
    exact hx _ (List.suffix_append_self_iff.mpr hy) source hsource

theorem land_route {p : List String} (h : t.Plain p) : land t [] (route p) = p := by
  have hfold : ∀ k, fold [] ((route p).take k) = (p.reverse.take k).reverse := by
    intro k
    rw [route, ← List.map_take, fold_names, List.append_nil]
  have hplain : ∀ k, t.Plain (fold [] ((route p).take k)) := by
    intro k
    rw [hfold]
    refine h.suffix ?_
    rw [← List.reverse_prefix, List.reverse_reverse]
    exact List.take_prefix _ _
  rw [land_of_plain hplain, route, fold_names, List.append_nil, List.reverse_reverse]

theorem confineLink_surveyed {way : List (Component String)} {n : String} {target : Route String}
    (hroot : t.resolve path = .ok root) (hmirrors : Mirrors t root t' root')
    (hlink : t.node (n :: x ++ root) = some (.link target))
    (h : linkInside t path (n :: x ++ path) = some way) :
    confineLink t' root' (n :: x) ⟨false, way⟩ = true := by
  have hstart : t.IsDirectory (x ++ root) := t.closed n _ (by rw [← List.cons_append, hlink]; simp)
  simp only [List.cons_append, linkInside, hroot, FileTree.resolve_append hroot hstart] at h hlink
  rw [hlink] at h
  simp only at h
  split at h
  · rename_i landed hlanded
    split at h
    · rename_i hbelow
      obtain ⟨goal, rfl⟩ := List.isSuffixOf_iff_suffix.mp hbelow
      obtain rfl : stepOver (x ++ root) (goal ++ root) = way := Option.some.inj h
      have hx : t'.Plain (x ++ root') :=
        hmirrors.plain hstart.plain
      have hgoal : t'.Plain (goal ++ root') := hmirrors.plain (FileTree.plain_of_walk t.top hlanded)
      have hplain : ∀ k, t'.Plain (fold (x ++ root')
          ((stepOver (x ++ root') (goal ++ root')).take k)) := by
        intro k
        rcases (fold_take (x ++ root') (goal ++ root') k).1 with hk | hk
        · exact hx.suffix hk
        · exact hgoal.suffix hk
      have hland : land t' [] (route (x ++ root') ++ stepOver x goal) = goal ++ root' := by
        rw [land_append, land_route hx, ← stepOver_append x goal root', land_of_plain hplain,
          fold_stepOver]
      simp [confineLink, stepOver_append, hland]
    · simp at h
  · simp at h

theorem surveyed_some (hroot : t.resolve path = .ok root) (h : surveyed t path x = some entry) :
    entry.path = ⟨false, route x⟩ ∧ t.node (x ++ root) ≠ none ∧
      ((∀ target, entry.kind ≠ .symlink target) ∧ entry.kind ≠ .hardLink ∨
        ∃ way source, entry.kind = .symlink (some ⟨false, way⟩) ∧
          t.node (x ++ root) = some (.link source) ∧ linkInside t path (x ++ path) = some way) := by
  simp only [surveyed, hroot] at h
  split at h
  · cases h
  · rename_i hnode
    cases h
    exact ⟨rfl, by simp [hnode], .inl ⟨nofun, nofun⟩⟩
  · rename_i hnode
    cases h
    exact ⟨rfl, by simp [hnode], .inl ⟨nofun, nofun⟩⟩
  · rename_i source hnode
    obtain ⟨way, hway, rfl⟩ := Option.map_eq_some_iff.mp h
    exact ⟨rfl, by simp [hnode], .inr ⟨way, source, rfl, hnode, hway⟩⟩

theorem confine_route (x : List String) :
    confine ⟨false, route x⟩ = if x.isEmpty then .error .nameless else .ok x := by
  have hparts : ∀ safe (ns : List String),
      confineParts safe (ns.map .name) = confineParts (ns.reverse ++ safe) [] := by
    intro safe ns
    induction ns generalizing safe with
    | nil => rfl
    | cons n ns ih => simp [confineParts, ih]
  rw [confine, if_neg (by simp), route, hparts, List.reverse_reverse, List.append_nil]
  rfl

theorem check_surveyed (hroot : t.resolve path = .ok root) (hmirrors : Mirrors t root t' root')
    (h : surveyed t path x = some entry) :
    check t' root' entry = .ok x ∧ x ≠ [] ∨ check t' root' entry = .error .nameless := by
  obtain ⟨hpath, -, hkind⟩ := surveyed_some hroot h
  cases x with
  | nil =>
    rw [check, hpath, confine_route]
    exact .inr rfl
  | cons n x =>
    refine .inl ⟨?_, List.cons_ne_nil n x⟩
    simp only [check, hpath, confine_route, List.isEmpty_cons, Bool.false_eq_true, if_false]
    rcases hkind with ⟨hlink, hhard⟩ | ⟨way, source, hkind, hnode, hway⟩
    · cases hk : entry.kind with
      | symlink target => exact absurd hk (hlink target)
      | hardLink => exact absurd hk hhard
      | _ => rfl
    · simp [hkind, confineLink_surveyed hroot hmirrors hnode hway]

variable (tar : Tar)

theorem unpackEntry_mirrors (hroot : t.resolve path = .ok root)
    (hmirrors : Mirrors t root t' root') (h : surveyed t path x = some entry) :
    Mirrors t root (unpackEntry tar root' t' entry).tree root' := by
  rcases unpackEntry_cases tar t' root' entry with ⟨e, he, -⟩ | ⟨he, -⟩ |
    ⟨inside, n, parent, p, hcheck, hplace, -, hready, htree, -⟩
  · rwa [he]
  · rwa [he]
  obtain ⟨-, hnode, hkind⟩ := surveyed_some hroot h
  rcases check_surveyed hroot hmirrors h with ⟨hx, hne⟩ | hx
  · cases hcheck.symm.trans hx
    obtain ⟨m, y, rfl⟩ := List.exists_cons_of_ne_nil hne
    obtain ⟨rfl, rfl⟩ : m = n ∧ y ++ root' = parent := by simpa using hplace
    have hmade : Mirrors t root (t'.createDirAll (y ++ root')).tree root' := by
      refine ⟨hready.keeps hmirrors.directory, fun z target hz => hmirrors.links z target ?_⟩
      by_cases hmem : z ++ root' ∈ (t'.createDirAll (y ++ root')).made
      · have hdir := hready.directory.suffix (hready.made _ hmem).2
        simp [show (t'.createDirAll (y ++ root')).tree.node (z ++ root') = _ from hdir] at hz
      · rwa [← hready.only _ hmem]
    have hstart : t.IsDirectory (y ++ root) := t.closed m _ hnode
    have hp := FileTree.resolve_of_plain
      (hmade.plain hstart.plain) hready.resolved
    subst hp
    rw [htree]
    refine ⟨tar.keeps _ _ _ _ hmade.directory, fun z target hz => ?_⟩
    by_cases hq : z ++ root' = m :: (y ++ root')
    · rw [hq] at hz
      rcases tar.links _ _ _ _ _ hz with hold | hsymlink
      · exact hmade.links z target (by rw [hq, hold])
      obtain rfl : z = m :: y := List.append_cancel_right hq
      rcases hkind with ⟨hlink, -⟩ | ⟨-, source, -, hsource, -⟩
      · exact absurd hsymlink (hlink _)
      · exact ⟨source, hsource⟩
    · rw [tar.writes _ _ _ _ _ hready.resolved _ hq] at hz
      exact hmade.links z target hz
  · cases hcheck.symm.trans hx

theorem unpackEntry_pointsOut (h : (unpackEntry tar root' t' entry).result = .error .pointsOut) :
    check t' root' entry = .error .pointsOut := by
  rw [unpackEntry] at h
  split at h
  · rename_i e hcheck
    cases h
    exact hcheck
  split at h
  · cases h
  simp only at h
  split at h
  · simp only [Except.mapError] at h
    split at h <;> cases h
  · cases h
  · cases h

theorem unpackFrom_surveyed (hroot : t.resolve path = .ok root)
    (hmirrors : Mirrors t root t' root') {reads : List Read}
    (hreads : ∀ entry, .entry entry ∈ reads → ∃ x, surveyed t path x = some entry) :
    (unpackFrom tar root' t' reads).result ≠ .error .pointsOut := by
  induction reads generalizing t' with
  | nil => simp [unpackFrom]
  | cons read reads ih =>
    cases read with
    | unreadable => simp [unpackFrom]
    | cancelled => simp [unpackFrom]
    | entry entry =>
      obtain ⟨x, hx⟩ := hreads entry List.mem_cons_self
      rw [unpackFrom]
      simp only
      split
      · rename_i e he
        rintro ⟨⟩
        have hcheck := unpackEntry_pointsOut tar he
        rcases check_surveyed hroot hmirrors hx with ⟨hx, -⟩ | hx <;> cases hcheck.symm.trans hx
      · exact ih (unpackEntry_mirrors tar hroot hmirrors hx)
          fun e he => hreads e (List.mem_cons_of_mem _ he)

end Links

/-- A rewritten link leads where it did, by a way that stays below what it links within; and no
link that a survey wrote is refused while its archive is unpacked where there are no other links. -/
theorem step_over_returns :
    (∀ start goal, fold start (stepOver start goal) = goal ∧ stepOver start goal ≠ []) ∧
    (∀ root start goal, root <:+ start → root <:+ goal →
      ∀ k, root <:+ fold start ((stepOver start goal).take k)) ∧
    ∀ (tar : Tar) (t : FileTree String) (path : List String) (into : Opened) (reads : List Read),
      (∀ x target, into.tree.node (x ++ into.root) ≠ some (.link target)) →
      (∀ entry, .entry entry ∈ reads → ∃ x, surveyed t path x = some entry) →
        (unpack tar into reads).result ≠ .error .pointsOut := by
  refine ⟨fun start goal => ⟨fold_stepOver start goal, stepOver_ne_nil start goal⟩,
    fun root start goal hstart hgoal => fold_take_below hstart hgoal, ?_⟩
  intro tar t path into reads hinto hreads
  rcases hroot : t.resolve path with e | root
  · have hnone : ∀ entry, .entry entry ∉ reads := by
      intro entry hentry
      obtain ⟨x, hx⟩ := hreads entry hentry
      simp [surveyed, hroot] at hx
    rcases reads with _ | ⟨entry | _ | _, reads⟩
    · simp [unpack, unpackFrom]
    · exact absurd List.mem_cons_self (hnone entry)
    · simp [unpack, unpackFrom]
    · simp [unpack, unpackFrom]
  · exact unpackFrom_surveyed tar hroot
      ⟨into.directory, fun x target hx => absurd hx (hinto x target)⟩ hreads

def turning : FileTree String :=
  work.tree.put "x" ["work"] (.link ⟨true, [.name "work"]⟩) rfl (by unfold FileTree.IsDirectory; decide)

theorem step_over_returns_turning :
    (unpack gnuTar work [.entry ⟨⟨false, [.name "x"]⟩, .symlink (some ⟨false, [.here]⟩)⟩]).result ≠
      .error .pointsOut := by
  refine step_over_returns.2.2 gnuTar turning ["work"] work _ (fun x target h => ?_) ?_
  · simp only [work] at h
    split at h <;> cases h
  · rintro entry hentry
    cases List.mem_singleton.mp hentry
    exact ⟨["x"], by decide +kernel⟩

end CraftPanel.Backups
