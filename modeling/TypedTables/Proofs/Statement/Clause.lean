import TypedTables.Proofs.Grammar.Query
import TypedTables.Proofs.Script
import TypedTables.Proofs.Statement.Bytes
import TypedTables.Proofs.Token.Part

/-!
The `WITH` clause in the text of a statement. It stands between the first `AS` and the main
`SELECT`; without it the text declares the same view without a sub-query.
-/

namespace TypedTables

open Lexeme Grammar
open String (utf8Len)

section Shared

variable {source source' : String} {front front' mid rest rest' : List Char}

theorem slice_of_le {first stop : Nat} (h : stop ≤ first) : slice source first stop = "" := by
  unfold slice String.Pos.Raw.extract
  exact if_pos h

/-- Between two places in a part that two texts share they show the same. -/
theorem slice_shared (hsource : source.toList = front ++ mid ++ rest)
    (hsource' : source'.toList = front' ++ mid ++ rest') {before after before' after' : List Char}
    (h : mid = before ++ after) (h' : mid = before' ++ after') :
    slice source (utf8Len front + utf8Len before) (utf8Len front + utf8Len before') =
      slice source' (utf8Len front' + utf8Len before) (utf8Len front' + utf8Len before') := by
  by_cases hle : utf8Len before' ≤ utf8Len before
  · rw [slice_of_le (Nat.add_le_add_left hle _), slice_of_le (Nat.add_le_add_left hle _)]
  · obtain ⟨inner, rfl, -⟩ | ⟨inner, rfl, -⟩ := List.append_eq_append_iff.1 (h.symm.trans h')
    · have hslice {text : String} {start stop : List Char}
          (htext : text.toList = start ++ mid ++ stop) : (slice text (utf8Len start + utf8Len before)
            (utf8Len start + utf8Len (before ++ inner))).toList = inner := by
        rw [String.utf8Len_append, ← Nat.add_assoc, ← String.utf8Len_append]
        have htext : text.toList = (start ++ before) ++ inner ++ (after' ++ stop) := by
          rw [htext, h']
          simp
        exact Statement.toList_slice htext
      rw [← String.toList_inj, hslice hsource, hslice hsource']
    · exact absurd (by rw [String.utf8Len_append]; exact Nat.le_add_right _ _) hle

/-- A token of a part of a text stands at places of that part. -/
theorem exists_places {front mid : List Char} {t : Token}
    (ht : t ∈ lexFrom (Location.start.advance front) [] mid) : ∃ before inside after,
      mid = before ++ (inside ++ after) ∧ t.span.offset = utf8Len front + utf8Len before ∧
      t.span.stop = utf8Len front + utf8Len (before ++ inside) := by
  obtain h | ⟨before, c, rest, hmid, hspan⟩ := exists_place_lexFrom mid t ht
  · contradiction
  · refine ⟨before, c :: rest.take (head c rest).2, rest.drop (head c rest).2, ?_, ?_, ?_⟩
    · rw [hmid, List.cons_append, List.take_append_drop]
    · rw [hspan, lexemeSpan, Location.spanTo, Location.offset_advance, Location.offset_advance,
        Location.start, Nat.zero_add]
    · rw [hspan, lexemeSpan, Span.stop, Location.spanTo, Location.offset_advance _ (c :: _),
        Nat.add_sub_cancel_left, Location.offset_advance, Location.offset_advance, Location.start,
        Nat.zero_add, String.utf8Len_append, Nat.add_assoc]

theorem sourceText_shared (hsource : source.toList = front ++ mid ++ rest)
    (hsource' : source'.toList = front' ++ mid ++ rest') {ts us : List Token}
    (hts : ∀ t ∈ ts, t ∈ lexFrom (Location.start.advance front) [] mid)
    (h : ts.map (Token.reading (utf8Len front')) = us.map (Token.reading (utf8Len front))) :
    sourceText source ts = sourceText source' us := by
  have hhead := congrArg List.head? h
  have hlast := congrArg List.getLast? h
  rw [List.head?_map, List.head?_map] at hhead
  rw [List.getLast?_map, List.getLast?_map] at hlast
  unfold sourceText
  cases hfirst : ts.head? with
  | none =>
    rw [hfirst] at hhead
    rw [Option.map_eq_none_iff.1 hhead.symm]
  | some first =>
    cases hlast' : ts.getLast? with
    | none =>
      rw [List.getLast?_eq_none_iff.1 hlast'] at hfirst
      contradiction
    | some last =>
      rw [hfirst] at hhead
      rw [hlast'] at hlast
      obtain ⟨first', hfirst', heq⟩ := Option.map_eq_some_iff.1 hhead.symm
      obtain ⟨last', hlast', heq'⟩ := Option.map_eq_some_iff.1 hlast.symm
      obtain ⟨before, _, _, hmid, hoffset, -⟩ :=
        exists_places (hts first (List.mem_of_mem_head? hfirst))
      obtain ⟨before', inside, after, hmid', -, hstop⟩ :=
        exists_places (hts last (List.mem_of_getLast? ‹_›))
      rw [← List.append_assoc] at hmid'
      have hoffset' : first'.span.offset = utf8Len front' + utf8Len before := by
        have hplace := congrArg Reading.offset heq
        dsimp only [Token.reading] at hplace
        omega
      have hstop' : last'.span.stop = utf8Len front' + utf8Len (before' ++ inside) := by
        have hplace := congrArg Reading.offset heq'
        have hlength := congrArg Reading.length heq'
        dsimp only [Token.reading] at hplace hlength
        rw [Span.stop] at hstop ⊢
        omega
      rw [hfirst', hlast']
      dsimp only
      rw [hoffset, hstop, hoffset', hstop']
      exact slice_shared hsource hsource' hmid hmid'

/-- A part that two texts share is made of tokens that are alike. -/
theorem alike_lexFrom (hsource : source.toList = front ++ mid ++ rest)
    (hsource' : source'.toList = front' ++ mid ++ rest') :
    Alike source source' (lexFrom (Location.start.advance front) [] mid)
      (lexFrom (Location.start.advance front') [] mid) where
  contents := by rw [map_content_lexFrom, map_content_lexFrom]
  texts i n := by
    refine sourceText_shared hsource hsource'
      (fun t ht => List.mem_of_mem_drop (List.mem_of_mem_take ht)) ?_
    have hoffset (front : List Char) : (Location.start.advance front).offset = utf8Len front := by
      rw [Location.offset_advance, Location.start, Nat.zero_add]
    rw [List.map_take, List.map_drop, List.map_take, List.map_drop, map_reading_lexFrom,
      map_reading_lexFrom, hoffset, hoffset, Nat.add_comm]
    rfl

end Shared

section Views

variable {text : String} {n : Nat} {view : TableDecl} {query : ViewQuery}

/-- Three parts of a text: from the token at `n` up to the first `AS` outside parentheses, then
perhaps a `WITH` clause, and then the main `SELECT`. -/
structure SetsOff (n : Nat) (front clause back : String) : Prop where
  front : ∃ before as, (tokenize front).drop n = before ++ [as] ∧ NoAs before ∧
    as.kind = .keyword .as
  clause : WithClause (tokenize clause)
  back : (tokenize back).head?.any (·.isKeyword .select) = true

def TableDecl.withoutSubquery (view : TableDecl) : TableDecl :=
  { view with query := view.query.map ViewQuery.withoutSubquery }

theorem withClause_congr {ts us : List Token} (h : ts.map Token.content = us.map Token.content)
    (hts : WithClause ts) : WithClause us := by
  obtain rfl | ⟨first, rest, rfl, hfirst, hrest⟩ := hts
  · exact .inl (List.map_eq_nil_iff.1 h.symm)
  · obtain ⟨first', rest', rfl, hcontent, hrest'⟩ := List.map_eq_cons_iff.1 h.symm
    refine .inr ⟨first', rest', rfl, ?_, clear_congr hrest'.symm (fun _ _ _ _ => rfl) hrest⟩
    rw [← hfirst, (Prod.mk.inj hcontent).1]

/-- A text is cut before the clause of its view and before its main query, and is read up to the
clause in the same way if the main query stands there. -/
theorem exists_parts_of_clause {ts clause body : List Token} {select : Token}
    (h : tokenize text = ts ++ (clause ++ select :: body)) (hclause : WithClause clause)
    (hselect : select.kind = .keyword .select) :
    ∃ front inside back, text.toList = front ++ (inside ++ back) ∧ lexFrom .start [] front = ts ∧
      lexFrom (Location.start.advance front) [] inside = clause ∧
      lexFrom (Location.start.advance (front ++ inside)) [] back = select :: body ∧
      lexFrom .start [] (front ++ back) = ts ++ lexFrom (Location.start.advance front) [] back := by
  rw [← List.append_assoc] at h
  obtain ⟨front, back, htext, hword, hfront, hback, hreads⟩ :=
    exists_parts h hselect (by decide)
  obtain rfl | ⟨first, rest, rfl, hfirst, -⟩ := hclause
  · rw [List.append_nil] at hfront hreads
    exact ⟨front, [], back, htext, hfront, by simp [lexFrom], by rwa [List.append_nil],
      hreads back hword⟩
  · obtain ⟨before, inside, rfl, -, hbefore, hinside, hreads'⟩ :=
      exists_parts hfront hfirst (by decide)
    refine ⟨before, inside, back, ?_, hbefore, hinside, hback, hreads' back hword⟩
    rw [htext, List.append_assoc]

theorem setsOff_of_parts {front inside back : List Char} {here there : Location}
    {done before clause body : List Token} {as select : Token}
    (hfront : lexFrom .start [] front = done ++ (before ++ [as])) (hdone : done.length = n)
    (hbefore : NoAs before) (has : as.kind = .keyword .as) (hinside : lexFrom here [] inside = clause)
    (hclause : WithClause clause) (hback : lexFrom there [] back = select :: body)
    (hselect : select.kind = .keyword .select) :
    SetsOff n (String.ofList front) (String.ofList inside) (String.ofList back) where
  front := by
    refine ⟨before, as, ?_, hbefore, has⟩
    rw [tokenize, String.toList_ofList, hfront, List.drop_left' hdone]
  clause := by
    refine withClause_congr ?_ hclause
    rw [map_content_tokenize, String.toList_ofList, ← hinside, map_content_lexFrom]
    rfl
  back := by
    have hcontents : (tokenize (String.ofList back)).map Token.content =
        (select :: body).map Token.content := by
      rw [map_content_tokenize, String.toList_ofList, ← hback, map_content_lexFrom]
      rfl
    obtain ⟨select', body', heq, hselect', -⟩ := List.map_eq_cons_iff.1 hcontents
    rw [heq]
    simp [Token.isKeyword, (Prod.mk.inj hselect').1, hselect]

/-- Without the `WITH` clause the same view is declared without a sub-query. -/
theorem exists_setsOff (h : declaration? text n = some view) (hquery : view.query = some query) :
    ∃ front clause back, text = front ++ clause ++ back ∧ SetsOff n front clause back ∧
      declaration? (front ++ back) n = some view.withoutSubquery := by
  obtain ⟨c, h⟩ := declaration?_eq_some.1 h
  obtain ⟨before, as, clause, select, body, htokens, hclear, has, hclause, hselect, hreads⟩ :=
    exists_clause_of_statement h hquery
  have hlength : ((tokenize text).take n).length = n := by
    have hne : (tokenize text).drop n ≠ [] := fun hnil => by
      simp [Cursor.ofTokens, hnil] at htokens
    rw [List.length_take, Nat.min_eq_left (Nat.le_of_not_le (mt List.drop_eq_nil_iff.2 hne))]
  have hall : tokenize text =
      ((tokenize text).take n ++ (before ++ [as])) ++ (clause ++ select :: body) := by
    conv_lhs => rw [← List.take_append_drop n (tokenize text)]
    rw [List.append_assoc, List.append_assoc, List.singleton_append, ← htokens]
    rfl
  obtain ⟨front, inside, back, htext, hfront, hinside, hback, hwithout⟩ :=
    exists_parts_of_clause hall hclause hselect
  have hwhole : (String.ofList front ++ String.ofList back).toList = front ++ back := by simp
  have halike : Alike text (String.ofList front ++ String.ofList back) (before ++ [as])
      (before ++ [as]) := by
    have h : Alike text (String.ofList front ++ String.ofList back)
        (lexFrom (Location.start.advance []) [] front)
        (lexFrom (Location.start.advance []) [] front) := alike_lexFrom htext hwhole
    rw [Location.advance, Location.after, List.foldl_nil, hfront] at h
    have h := h.drop n
    rwa [List.drop_left' hlength] at h
  have hmain : Alike text (String.ofList front ++ String.ofList back) (select :: body)
      (lexFrom (Location.start.advance front) [] back) := by
    have htext' : text.toList = (front ++ inside) ++ back ++ [] := by simp [htext]
    have hwhole' : (String.ofList front ++ String.ofList back).toList = front ++ back ++ [] := by
      simp
    rw [← hback]
    exact alike_lexFrom htext' hwhole'
  refine ⟨String.ofList front, String.ofList inside, String.ofList back, ?_,
    setsOff_of_parts hfront hlength hclear has hinside hclause hback hselect, ?_⟩
  · rw [← String.toList_inj, htext]
    simp
  · obtain ⟨c₂, hok⟩ := hreads _ 0 _ _ halike hmain
    refine declaration?_eq_some.2 ⟨c₂, ?_⟩
    rw [tokenize, hwhole, hwithout, List.append_assoc, List.drop_left' hlength,
      TableDecl.withoutSubquery, hquery]
    exact hok

end Views

end TypedTables
