import TypedTables.Proofs.Resolve.Settled

/-!
The order of declarations. A view depends on the tables before it only through the one table that it
reads, and that makes a difference only if it is a view that has been settled by then. So the tables
of a script may be rearranged as long as no view moves past another one that it reads.
-/

namespace TypedTables

open Text

/-- Whether the query names a table, behind its own `FROM` or behind that of its sub-query. -/
def ViewQuery.reads (query : ViewQuery) (table : String) : Bool :=
  query.source.any (sameIgnoringCase · table) ||
    query.subquery.any fun sub => sub.source.any (sameIgnoringCase · table)

/-- Whether a view reads another one. -/
def TableDecl.readsView (view other : TableDecl) : Bool :=
  other.query.isSome && view.query.any (·.reads other.name)

theorem ViewQuery.reads_of_sourceName? {query : ViewQuery} {name table : String}
    (h : query.sourceName? = some name) (hname : lower name = lower table) :
    query.reads table = true := by
  have hsame : sameIgnoringCase name table = true := by simpa [sameIgnoringCase] using hname
  unfold sourceName? at h
  unfold reads
  cases hsel : query.selected? with
  | none =>
    simp only [hsel] at h
    simp [h, hsame]
  | some sub =>
    simp only [hsel] at h
    obtain ⟨hsub, -⟩ := Option.filter_eq_some_iff.1 hsel
    simp [hsub, h, hsame]

namespace Catalog

variable {catalog catalog' : Catalog} {table : TableDecl}

/-- Inference asks a catalog for nothing but the table that the view reads. -/
theorem inferTable_congr
    (h : ∀ query ∈ table.query, ∀ name ∈ query.sourceName?,
      catalog.source? name = catalog'.source? name) :
    catalog.inferTable table = catalog'.inferTable table := by
  unfold inferTable
  cases hq : table.query with
  | none => rfl
  | some query =>
    have hsource : query.sourceName?.bind catalog.source? = query.sourceName?.bind catalog'.source? :=
      Option.bind_congr fun name hname => h query hq name hname
    dsimp only
    rw [hsource]

end Catalog

section Rearranged

variable {n : Nat} {tables : Fin n → TableDecl} {σ : Equiv.Perm (Fin n)}

theorem apart_ofFn
    (h : ∀ i j, sameIgnoringCase (tables i).name (tables j).name = true → i = j) :
    Apart TableDecl.name (List.ofFn tables) := by
  refine List.pairwise_ofFn.2 fun i j hlt => ?_
  cases hsame : sameIgnoringCase (tables i).name (tables j).name with
  | false => rfl
  | true => exact absurd (h i j hsame) hlt.ne

theorem exists_eq_ofFn {α : Type} (xs : List α) (h : xs.length = n) :
    ∃ f : Fin n → α, xs = List.ofFn f := by
  subst h
  exact ⟨xs.get, (List.ofFn_get xs).symm⟩

theorem getElem?_ofFn {α : Type} (f : Fin n → α) (i : Fin n) : (List.ofFn f)[i.val]? = some (f i) := by
  rw [List.getElem?_ofFn, dif_pos i.isLt]

section Settled

variable (hnames : ∀ i j, sameIgnoringCase (tables i).name (tables j).name = true → i = j)
  (horder : ∀ i j, (tables (σ i)).readsView (tables (σ j)) = true → (j < i ↔ σ j < σ i))
  {done done' : Fin n → TableDecl} (hdone : settled (List.ofFn tables) = List.ofFn done)
  (hdone' : settled (List.ofFn (tables ∘ σ)) = List.ofFn done')

theorem eq_inferTable (hdone : settled (List.ofFn tables) = List.ofFn done) (i : Fin n) :
    done i = (catalogAt (List.ofFn tables) i).inferTable (tables i) := by
  have h := getElem?_settled (List.ofFn tables) i
  rw [hdone, getElem?_ofFn, getElem?_ofFn] at h
  exact Option.some.inj h

include hnames horder hdone hdone'

/-- If the tables before a view are settled as they were, then so is what the view reads. -/
theorem source?_rearranged {k : Fin n} (hbefore : ∀ j < k, done' j = done (σ j)) {query : ViewQuery}
    (hquery : (tables (σ k)).query = some query) {name : String}
    (hname : query.sourceName? = some name) :
    (catalogAt (List.ofFn (tables ∘ σ)) k).source? name =
      (catalogAt (List.ofFn tables) (σ k)).source? name := by
  have happart := apart_ofFn hnames
  have happart' : Apart TableDecl.name (List.ofFn (tables ∘ σ)) :=
    apart_ofFn fun i j h => σ.injective (hnames _ _ h)
  by_cases hfound : ∃ i, lower (tables i).name = lower name
  · obtain ⟨i, hi⟩ := hfound
    obtain ⟨i, rfl⟩ := σ.surjective i
    have hread : (if i < k then done' i else (tables ∘ σ) i) =
        if σ i < σ k then done (σ i) else tables (σ i) := by
      cases hview : (tables (σ i)).query with
      | none =>
        -- a table that is no view is settled as it is declared
        have hsame : done (σ i) = tables (σ i) := by
          rw [eq_inferTable hdone, Catalog.inferTable_of_query hview]
        have hsame' : done' i = (tables ∘ σ) i := by
          rw [eq_inferTable hdone']
          exact Catalog.inferTable_of_query hview
        rw [hsame, hsame', ite_self, ite_self, Function.comp_apply]
      | some other =>
        have hreads : (tables (σ k)).readsView (tables (σ i)) = true := by
          simp [TableDecl.readsView, hview, hquery, ViewQuery.reads_of_sourceName? hname hi.symm]
        by_cases hlt : i < k
        · rw [if_pos hlt, if_pos ((horder k i hreads).1 hlt), hbefore i hlt]
        · rw [if_neg hlt, if_neg fun h => hlt ((horder k i hreads).2 h), Function.comp_apply]
    have hget : (settled (List.ofFn tables))[(σ i).val]? = some (done (σ i)) := by
      rw [hdone, getElem?_ofFn]
    have hget' : (settled (List.ofFn (tables ∘ σ)))[i.val]? = some (done' i) := by
      rw [hdone', getElem?_ofFn]
    rw [source?_settled happart (getElem?_ofFn tables (σ i)) hget hi,
      source?_settled happart' (getElem?_ofFn (tables ∘ σ) i) hget' hi]
    exact congrArg (fun table => some ({ table } : Source)) hread
  · have hnone (i : Fin n) : lower (tables i).name ≠ lower name := fun h => hfound ⟨i, h⟩
    rw [source?_of_undeclared happart (List.forall_mem_ofFn_iff.2 hnone),
      source?_of_undeclared happart' (List.forall_mem_ofFn_iff.2 fun i => hnone (σ i))]

/-- The tables are settled as they were. -/
theorem settled_rearranged (k : Fin n) : done' k = done (σ k) := by
  induction k using WellFoundedLT.induction with
  | ind k ih =>
    rw [eq_inferTable hdone, eq_inferTable hdone']
    apply Catalog.inferTable_congr
    intro query hquery name hname
    exact source?_rearranged hnames horder hdone hdone' ih hquery hname

end Settled

theorem resolve_ofFn {options : ResolveOptions} {done : Fin n → TableDecl}
    (hdone : settled (List.ofFn tables) = List.ofFn done) {mapped : List MappedTable} :
    resolve options (List.ofFn tables) = .ok mapped ↔
      n ≤ Ceiling.tableCount.limit ∧ (∀ i, (tables i).validate = .ok ()) ∧
      ∃ f : Fin n → MappedTable, mapped = List.ofFn f ∧
        ∀ i, (done i).resolve options = .ok (f i) := by
  rw [resolve_eq_ok_iff, hdone, List.length_ofFn, List.forall_mem_ofFn_iff]
  refine and_congr_right fun _ => and_congr_right fun _ => ?_
  constructor
  · intro h
    obtain ⟨f, rfl⟩ := exists_eq_ofFn (n := n) mapped (by simpa using h.length_eq.symm)
    refine ⟨f, rfl, fun i => ?_⟩
    simpa using (List.forall₂_iff_get.1 h).2 i (by simp) (by simp)
  · rintro ⟨f, rfl, h⟩
    exact List.forall₂_iff_get.2 ⟨by simp, fun i hi hi' => by simpa using h ⟨i, by simpa using hi⟩⟩

/-- Tables that are rearranged so that no view moves past another one that it reads are resolved as
they were before, and come out rearranged the same way. -/
theorem resolve_rearranged (options : ResolveOptions)
    (hnames : ∀ i j, sameIgnoringCase (tables i).name (tables j).name = true → i = j)
    (horder : ∀ i j, (tables (σ i)).readsView (tables (σ j)) = true → (j < i ↔ σ j < σ i)) :
    ((∃ mapped, resolve options (List.ofFn tables) = .ok mapped) ↔
      ∃ mapped, resolve options (List.ofFn (tables ∘ σ)) = .ok mapped) ∧
    ∀ mapped, resolve options (List.ofFn tables) = .ok mapped →
      ∃ f : Fin n → MappedTable, mapped = List.ofFn f ∧
        resolve options (List.ofFn (tables ∘ σ)) = .ok (List.ofFn (f ∘ σ)) := by
  obtain ⟨done, hdone⟩ := exists_eq_ofFn (n := n) (settled (List.ofFn tables)) (by simp)
  obtain ⟨done', hdone'⟩ := exists_eq_ofFn (n := n) (settled (List.ofFn (tables ∘ σ))) (by simp)
  obtain rfl : done' = done ∘ σ := funext (settled_rearranged hnames horder hdone hdone')
  have hmoves (mapped : List MappedTable) (h : resolve options (List.ofFn tables) = .ok mapped) :
      ∃ f : Fin n → MappedTable, mapped = List.ofFn f ∧
        resolve options (List.ofFn (tables ∘ σ)) = .ok (List.ofFn (f ∘ σ)) := by
    obtain ⟨hcount, hvalid, f, rfl, hf⟩ := (resolve_ofFn hdone).1 h
    exact ⟨f, rfl, (resolve_ofFn hdone').2
      ⟨hcount, fun i => hvalid (σ i), f ∘ σ, rfl, fun i => hf (σ i)⟩⟩
  refine ⟨⟨fun ⟨mapped, h⟩ => ?_, fun ⟨mapped, h⟩ => ?_⟩, hmoves⟩
  · obtain ⟨f, -, h⟩ := hmoves mapped h
    exact ⟨_, h⟩
  · obtain ⟨hcount, hvalid, f, -, hf⟩ := (resolve_ofFn hdone').1 h
    refine ⟨List.ofFn (f ∘ σ.symm), (resolve_ofFn hdone).2 ⟨hcount, fun i => ?_, _, rfl, fun i => ?_⟩⟩
    · simpa using hvalid (σ.symm i)
    · simpa using hf (σ.symm i)

end Rearranged

/-- A table, a view of it and a view of that view. -/
def viewOfView : Fin 3 → TableDecl :=
  ![{ name := "events", columns := [⟨"id", .plain "UInt64", "UInt64", none, none, none⟩] },
    { name := "keys", kind := .materializedView, columns := [.pending "key"]
      query := some ⟨some "events", [⟨"id", some "key", some "id", none⟩], none⟩ },
    { name := "latest", kind := .materializedView, columns := [.pending "key"]
      query := some ⟨some "Keys", [⟨"key", none, some "key", none⟩], none⟩ }]

theorem resolve_rearranged_viewOfView :
    (∀ i j, sameIgnoringCase (viewOfView i).name (viewOfView j).name = true → i = j) ∧
    (∀ i j, (viewOfView (finRotate 3 i)).readsView (viewOfView (finRotate 3 j)) = true →
      (j < i ↔ finRotate 3 j < finRotate 3 i)) ∧
    ∃ f : Fin 3 → MappedTable, resolve {} (List.ofFn viewOfView) = .ok (List.ofFn f) ∧
      resolve {} (List.ofFn (viewOfView ∘ finRotate 3)) = .ok (List.ofFn (f ∘ finRotate 3)) := by
  have hnames : ∀ i j,
      sameIgnoringCase (viewOfView i).name (viewOfView j).name = true → i = j := by decide +kernel
  have horder : ∀ i j, (viewOfView (finRotate 3 i)).readsView (viewOfView (finRotate 3 j)) = true →
      (j < i ↔ finRotate 3 j < finRotate 3 i) := by decide +kernel
  have hok : (resolve {} (List.ofFn viewOfView)).toOption.any (fun _ => true) = true := by
    decide +kernel
  obtain ⟨mapped, hmapped, -⟩ := exists_of_any hok
  obtain ⟨f, rfl, h⟩ := (resolve_rearranged {} hnames horder).2 mapped hmapped
  exact ⟨hnames, horder, f, hmapped, h⟩

end TypedTables
