import TypedTables.Files.Host
import TypedTables.Proofs.Result

/-!
What a tree is like after a file has been written: the file is read back through the path it has
been written through, directories are still there, and no other file has changed.
-/

namespace TypedTables

namespace Tree

variable {root root' : Tree} {here place : Place} {written : List Place}

/-- Directories stay where they are, and so do files, except at the places that are written to. -/
structure Grows (written : List Place) (root root' : Tree) : Prop where
  directories : ∀ place entries, root.find? place = some (.directory entries) →
    ∃ entries', root'.find? place = some (.directory entries')
  files : ∀ place ∉ written, ∀ text, root.find? place = some (.file text) →
    root'.find? place = some (.file text)

namespace Grows

theorem refl (root : Tree) : Grows written root root :=
  ⟨fun _ entries h => ⟨entries, h⟩, fun _ _ _ h => h⟩

theorem trans {root₁ : Tree} {written' : List Place} (h : Grows written root root₁)
    (h' : Grows written' root₁ root') : Grows (written ++ written') root root' where
  directories place entries hplace := by
    obtain ⟨entries₁, hplace⟩ := h.directories place entries hplace
    exact h'.directories place entries₁ hplace
  files place hnot text hplace := by
    rw [List.mem_append, not_or] at hnot
    exact h'.files place hnot.2 text (h.files place hnot.1 text hplace)

/-- Where nothing was, no file has been lost. -/
theorem of_none (h : Grows [place] root root') (hnone : root.find? place = none) :
    Grows [] root root' where
  directories := h.directories
  files place' _ text hplace := by
    refine h.files place' (fun hmem => ?_) text hplace
    rw [List.mem_singleton.1 hmem, hnone] at hplace
    contradiction

end Grows

section Put

theorem lookup_cons_eq_ite (n m : String) (tree : Tree) (entries : List (String × Tree)) :
    ((m, tree) :: entries).lookup n = if n = m then some tree else entries.lookup n := by
  rw [List.lookup_cons]
  by_cases h : n = m
  · rw [if_pos h, beq_iff_eq.2 h]
  · rw [if_neg h, beq_eq_false_iff_ne.2 h]

theorem lookup_setEntry (name n : String) (tree : Tree) (entries : List (String × Tree)) :
    (setEntry name tree entries).lookup n = if n = name then some tree else entries.lookup n := by
  induction entries with
  | nil => rw [setEntry, lookup_cons_eq_ite]
  | cons entry entries ih =>
    obtain ⟨m, t⟩ := entry
    rw [setEntry]
    split
    · next hm =>
      subst hm
      rw [lookup_cons_eq_ite, lookup_cons_eq_ite]
      split_ifs <;> rfl
    · next hm =>
      rw [lookup_cons_eq_ite, lookup_cons_eq_ite, ih]
      by_cases h : n = m
      · subst h
        rw [if_pos rfl, if_neg hm, if_pos rfl]
      · rw [if_neg h, if_neg h]

theorem find?_cons_put (entries : List (String × Tree)) (name n : String) (rest place : Place)
    (entry : Tree) : ((directory entries).put (name :: rest) entry).find? (n :: place) =
      if n = name then (((entries.lookup name).getD empty).put rest entry).find? place
      else (directory entries).find? (n :: place) := by
  rw [put, find?, lookup_setEntry]
  split <;> rfl

/-- What is put into a directory is there. -/
theorem find?_put {entries : List (String × Tree)}
    (hplace : root.find? place = some (.directory entries)) (name : String) (entry : Tree) :
    (root.put (place ++ [name]) entry).find? (place ++ [name]) = some entry := by
  induction place generalizing root with
  | nil =>
    obtain rfl := Option.some.inj hplace
    rw [List.nil_append, find?_cons_put, if_pos rfl, put, find?]
  | cons n rest ih =>
    cases root with
    | file text => contradiction
    | directory outer =>
      obtain ⟨inner, hinner, hrest⟩ := Option.bind_eq_some_iff.1 hplace
      rw [List.cons_append, find?_cons_put, if_pos rfl, hinner]
      exact ih hrest

/-- Putting something in the place of a directory is what loses the rest. -/
theorem grows_put (h : ∀ entries, root.find? place ≠ some (.directory entries)) (entry : Tree) :
    Grows [place] root (root.put place entry) := by
  induction place generalizing root with
  | nil =>
    cases root with
    | directory entries => exact absurd rfl (h entries)
    | file text =>
      constructor
      · rintro (_ | ⟨n, place⟩) entries hplace
        · exact nomatch Option.some.inj hplace
        · contradiction
      · rintro (_ | ⟨n, place⟩) hnot text hplace
        · exact absurd (List.mem_singleton_self _) hnot
        · contradiction
  | cons name rest ih =>
    cases root with
    | file text => exact .refl _
    | directory outer =>
      have hinner {inner : Tree} (hlookup : outer.lookup name = some inner) :
          Grows [rest] inner (((outer.lookup name).getD empty).put rest entry) := by
        rw [hlookup]
        refine ih fun entries hrest => h entries ?_
        rw [find?, hlookup]
        exact hrest
      constructor
      · rintro (_ | ⟨n, place⟩) entries hplace
        · exact ⟨_, rfl⟩
        · rw [find?_cons_put]
          split
          · next hn =>
            subst hn
            obtain ⟨inner, hlookup, hplace⟩ := Option.bind_eq_some_iff.1 hplace
            exact (hinner hlookup).directories place entries hplace
          · exact ⟨entries, hplace⟩
      · rintro (_ | ⟨n, place⟩) hnot text hplace
        · exact nomatch Option.some.inj hplace
        · rw [find?_cons_put]
          split
          · next hn =>
            subst hn
            obtain ⟨inner, hlookup, hplace⟩ := Option.bind_eq_some_iff.1 hplace
            refine (hinner hlookup).files place (fun hmem => hnot ?_) text hplace
            rw [List.mem_singleton.1 hmem]
            exact List.mem_singleton_self _
          · exact hplace

end Put

section Make

theorem grows_put_of_none (h : root.find? place = none) (entry : Tree) :
    Grows [] root (root.put place entry) :=
  (grows_put (fun _ hplace => nomatch h.symm.trans hplace) entry).of_none h

theorem grows_makeEach {steps : List String} (h : root.makeEach place steps = .ok root') :
    Grows [] root root' := by
  induction steps generalizing root place with
  | nil =>
    cases h
    exact .refl _
  | cons step rest ih =>
    rw [makeEach] at h
    split at h
    · exact ih h
    · obtain ⟨-, -, h⟩ := bind_eq_ok.1 h
      dsimp only at h
      split at h
      · exact ih h
      · contradiction
      · next hnone => exact (grows_put_of_none hnone empty).trans (ih h)

theorem grows_makeDirectories {steps : List String}
    (h : root.makeDirectories place steps = .ok root') : Grows [] root root' := by
  induction steps generalizing place with
  | nil =>
    cases h
    exact .refl _
  | cons step rest ih =>
    rw [makeDirectories] at h
    split at h
    · exact ih h
    · obtain ⟨-, -, h⟩ := bind_eq_ok.1 h
      split at h
      · exact ih h
      · contradiction
      · exact grows_makeEach h

theorem grows_makeParent {path : String} (h : root.makeParent here path = .ok root') :
    Grows [] root root' := by
  unfold makeParent at h
  split at h
  · cases h
    exact .refl _
  · obtain ⟨-, -, h⟩ := bind_eq_ok.1 h
    exact grows_makeDirectories h

end Make

section Follow

theorem follow_append (root : Tree) (place : Place) (parts parts' : List String) :
    root.follow place (parts ++ parts') =
      root.follow place parts >>= fun place' => root.follow place' parts' := by
  induction parts generalizing place with
  | nil => rfl
  | cons part parts ih =>
    rw [List.cons_append, follow, follow]
    cases root.find? place with
    | none => rfl
    | some tree =>
      cases tree with
      | file text => rfl
      | directory entries =>
        dsimp only
        split
        · exact ih place
        split
        · exact ih _
        · cases checkName part with
          | error fault => rfl
          | ok => exact ih _

/-- A way through a tree is a way through what the tree has grown into. -/
theorem follow_of_grows (hgrows : Grows written root root') {parts : List String} {place' : Place}
    (h : root.follow place parts = .ok place') : root'.follow place parts = .ok place' := by
  induction parts generalizing place with
  | nil => exact h
  | cons part parts ih =>
    rw [follow] at h ⊢
    cases hplace : root.find? place with
    | none =>
      rw [hplace] at h
      contradiction
    | some tree =>
      rw [hplace] at h
      cases tree with
      | file text => contradiction
      | directory entries =>
        obtain ⟨entries', hplace'⟩ := hgrows.directories place entries hplace
        rw [hplace']
        dsimp only at h ⊢
        split
        · next hidle =>
          rw [if_pos hidle] at h
          exact ih h
        next hidle =>
        rw [if_neg hidle] at h
        split
        · next hup =>
          rw [if_pos hup] at h
          exact ih h
        next hup =>
        rw [if_neg hup] at h
        obtain ⟨⟨⟩, hname, h⟩ := bind_eq_ok.1 h
        rw [hname]
        exact ih h

theorem resolve_of_grows (hgrows : Grows written root root') {path : String}
    (h : root.resolve here path = .ok place) : root'.resolve here path = .ok place := by
  obtain ⟨⟨⟩, hpath, h⟩ := bind_eq_ok.1 h
  unfold resolve
  rw [hpath]
  exact follow_of_grows hgrows h

end Follow

section Read

theorem getLast?_cut_go {sep : Char} {piece cs : List Char} {done : List (List Char)}
    (h : (Text.cut.go sep piece done cs).getLast? = some []) :
    (piece = [] ∧ cs = []) ∨ cs.getLast? = some sep := by
  induction cs generalizing piece done with
  | nil =>
    rw [Text.cut.go, List.reverse_cons, List.getLast?_concat] at h
    exact .inl ⟨List.reverse_eq_nil_iff.1 (Option.some.inj h), rfl⟩
  | cons c rest ih =>
    right
    rw [Text.cut.go] at h
    split at h
    · next hc =>
      subst hc
      obtain ⟨-, rfl⟩ | h := ih h
      · rfl
      · rw [List.getLast?_cons, h, Option.getD_some]
    · obtain ⟨hpiece, -⟩ | h := ih h
      · exact absurd hpiece (List.cons_ne_nil _ _)
      · rw [List.getLast?_cons, h, Option.getD_some]

/-- Only a slash at the end makes the last part of a path empty. -/
theorem getLast?_of_parts {path : String} (hpath : path ≠ "")
    (h : (Path.parts path).getLast? = some "") : path.toList.getLast? = some '/' := by
  rw [Path.parts, List.getLast?_map] at h
  obtain ⟨piece, hpiece, hempty⟩ := Option.map_eq_some_iff.1 h
  obtain rfl : piece = [] := String.ofList_injective hempty
  obtain ⟨-, hnil⟩ | h := getLast?_cut_go hpiece
  · exact absurd (String.toList_eq_nil_iff.1 hnil) hpath
  · exact h

theorem ne_empty_of_checkPath {path : String} (h : checkPath path = .ok ()) : path ≠ "" := by
  rintro rfl
  contradiction

theorem exists_parts (path : String) : ∃ init last, Path.parts path = init ++ [last] := by
  have hcut (piece : List Char) (done : List (List Char)) (cs : List Char) :
      Text.cut.go '/' piece done cs ≠ [] := by
    induction cs generalizing piece done with
    | nil => simp [Text.cut.go]
    | cons c rest ih =>
      rw [Text.cut.go]
      split <;> exact ih _ _
  obtain hnil | hparts := (Path.parts path).eq_nil_or_concat
  · exact absurd (List.map_eq_nil_iff.1 hnil) (hcut [] [] path.toList)
  · simpa using hparts

/-- What a path leads to when a file can be written there: a name for a file, in a directory. -/
structure LeadsTo (root : Tree) (here : Place) (path : String) (parent : Place) (name : String) :
    Prop where
  checked : checkPath path = .ok ()
  followed : ∃ init, Path.parts path = init ++ [name] ∧
    root.follow (start here path) init = .ok parent
  directory : ∃ entries, root.find? parent = some (.directory entries)
  leads : Path.isIdle name = false ∧ name ≠ ".." ∧ checkName name = .ok ()
  free : ∀ entries, root.find? (parent ++ [name]) ≠ some (.directory entries)

theorem exists_leadsTo {path text : String} (h : root.write here path text = .ok root') :
    ∃ parent name, root.LeadsTo here path parent name ∧
      root' = root.put (parent ++ [name]) (.file text) := by
  obtain ⟨⟨⟩, hpath, h⟩ := bind_eq_ok.1 h
  obtain ⟨init, last, hparts⟩ := exists_parts path
  dsimp only at h
  have hlast : last ≠ "" := by
    rintro rfl
    have hslash := getLast?_of_parts (ne_empty_of_checkPath hpath) (by rw [hparts]; simp)
    obtain ⟨parent, -, h⟩ := bind_eq_ok.1 h
    split at h
    · contradiction
    · contradiction
    · rw [hslash] at h
      contradiction
  have hdrop : (Path.parts path).reverse.dropWhile (· == "") = last :: init.reverse := by
    rw [hparts, List.reverse_concat, List.dropWhile_cons_of_neg (by simpa using hlast)]
  have hinit : ((last :: init.reverse).drop 1).reverse = init := List.reverse_reverse init
  have htake : (last :: init.reverse).take 1 = [last] := rfl
  rw [hdrop, hinit, htake] at h
  obtain ⟨parent, hparent, h⟩ := bind_eq_ok.1 h
  split at h
  · contradiction
  · contradiction
  next entries hentries =>
  split at h
  · contradiction
  next hasks =>
  obtain ⟨⟨⟩, hname, h⟩ := bind_eq_ok.1 h
  by_cases hfree : (root.find? (parent ++ [last])).any isDirectory = true
  · rw [if_pos hfree] at h
    contradiction
  rw [if_neg hfree] at h
  cases h
  simp only [List.head?_cons, Option.any_some, Bool.or_eq_true, beq_iff_eq, not_or] at hasks
  exact ⟨parent, last, {
    checked := hpath
    followed := ⟨init, hparts, hparent⟩
    directory := ⟨entries, hentries⟩
    leads := ⟨by simp [Path.isIdle, hlast, hasks.2.1], hasks.2.2,
      forM_eq_ok.1 hname last (List.mem_singleton_self last)⟩
    free := fun entries hplace => hfree (by rw [hplace]; rfl) }, rfl⟩

theorem LeadsTo.resolve {path name : String} {parent : Place}
    (h : root.LeadsTo here path parent name) (hgrows : Grows written root root') :
    root'.resolve here path = .ok (parent ++ [name]) := by
  obtain ⟨init, hparts, hparent⟩ := h.followed
  obtain ⟨entries, hentries⟩ := h.directory
  obtain ⟨entries', hentries'⟩ := hgrows.directories parent entries hentries
  obtain ⟨hidle, hup, hname⟩ := h.leads
  unfold Tree.resolve
  rw [h.checked, hparts]
  change root'.follow _ _ = _
  rw [follow_append, follow_of_grows hgrows hparent]
  change root'.follow parent [name] = _
  rw [follow, hentries']
  dsimp only
  rw [if_neg (by rw [hidle]; exact Bool.false_ne_true), if_neg hup, hname]
  rfl

/-- A file that has been written stands where its path leads. -/
theorem exists_of_write {path text : String} (h : root.write here path text = .ok root') :
    ∃ place, root'.resolve here path = .ok place ∧ root'.find? place = some (.file text) ∧
      Grows [place] root root' := by
  obtain ⟨parent, name, hleads, rfl⟩ := exists_leadsTo h
  obtain ⟨entries, hentries⟩ := hleads.directory
  have hgrows := grows_put hleads.free (.file text)
  exact ⟨parent ++ [name], hleads.resolve hgrows, find?_put hentries name _, hgrows⟩

theorem read_eq_ok {path text : String} (h : root.resolve here path = .ok place) :
    root.read here path = .ok text ↔ root.find? place = some (.file text) := by
  simp only [read, h, bind, Except.bind]
  split <;> simp [*]

end Read

end Tree

section Workspace

variable {before after : Workspace} {path text : String}

/-- The directories that are made stay, too. -/
theorem Workspace.exists_of_write (h : before.write path text = (.ok (), after)) :
    ∃ place root, after = { before with root } ∧ root.resolve before.here path = .ok place ∧
      root.find? place = some (.file text) ∧ Tree.Grows [place] before.root root := by
  unfold Workspace.write at h
  split at h
  · cases h
  next root₁ hparent =>
  split at h
  · cases h
  next root hwrite =>
  cases h
  obtain ⟨place, hresolve, hfile, hgrows⟩ := Tree.exists_of_write hwrite
  exact ⟨place, root, rfl, hresolve, hfile, (Tree.grows_makeParent hparent).trans hgrows⟩

end Workspace

end TypedTables
