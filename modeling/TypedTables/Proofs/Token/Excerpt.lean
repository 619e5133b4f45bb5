import TypedTables.Proofs.Statement.Bytes
import TypedTables.Proofs.Token.Part
import TypedTables.Proofs.TypeExpr.Written

/-!
Excerpts of a text: what it shows from the beginning of one token to the end of another. An excerpt
that is a lone identifier, or that ends with a closing parenthesis, is read as the tokens that it
was taken from wherever an item of a list may stand.
-/

namespace TypedTables

open Lexeme Statement
open String (utf8Len)

variable {c s : Char} {cs run rest : List Char}

section Locality

theorem map_content_readings (offset : Nat) : (cs : List Char) →
    (readings offset cs).map (fun r => (r.kind, r.text)) = contents cs
  | [] => by rw [readings_nil, contents_nil, List.map_nil]
  | c :: cs => by
    rw [readings_cons, contents_cons, List.map_append, map_content_readings _ (cs.drop _),
      Lexeme.reading?]
    cases (head c cs).1.token? c (cs.take (head c cs).2) <;> rfl
  termination_by cs => cs.length
  decreasing_by simp only [List.length_drop, List.length_cons]; omega

/-- Outside quotes and comments a text is read part by part where a separator begins. -/
theorem contents_append (hs : separates s = true) (hopen : endsOpen cs = false)
    (rest : List Char) : contents (cs ++ s :: rest) = contents cs ++ contents (s :: rest) := by
  rw [← map_content_readings 0, readings_append hs 0 cs hopen rest, List.map_append,
    map_content_readings, map_content_readings]

theorem runLength_le_head (c : Char) (cs : List Char) : runLength c cs ≤ (head c cs).2 := by
  cases runStart c cs with
  | quote hq => rw [head_of_quote hq]
  | hash | dashes | block => rw [head_of_comment rfl]; exact Nat.le_refl _
  | plain hq hn => rw [runLength_of_plain hq hn]; exact Nat.zero_le _

/-- Lexemes that end where punctuation stands are closed: an open one would have taken it. -/
theorem Whole.endsOpen (h : Whole cs (s :: rest)) (hs : s ∈ separators) :
    endsOpen cs = false := by
  generalize hbehind : s :: rest = text at h
  induction h with
  | nil => exact endsOpen_nil
  | @cons c run cs text hrun h ih =>
    subst hbehind
    have hstays : staysOpen c (run ++ cs) = false := by
      rw [← Bool.not_eq_true]
      intro hopen
      have hlt := lt_runLength_append hopen hs rest
      have hle := runLength_le_head c (run ++ (cs ++ s :: rest))
      rw [List.append_assoc, List.length_append] at hlt
      omega
    have hlength : (head c (run ++ cs)).2 = run.length := by
      rw [← head_append hstays (separates_of_mem hs) rest, List.append_assoc, hrun]
    rw [endsOpen_head, hstays, hlength, List.drop_left, ih rfl, Bool.or_false]

end Locality

section Quotes

theorem quotedLength_take (quote : Char) (cs : List Char) :
    quotedLength quote (cs.take (quotedLength quote cs)) = quotedLength quote cs := by
  induction cs using quoteCloses.induct quote with
  | case1 | case2 => rfl
  | case3 d rest ih =>
    rw [quotedLength_cons_cons, if_pos rfl, List.take_succ_cons, List.take_succ_cons,
      quotedLength_cons_cons, if_pos rfl, ih]
  | case4 rest h ih =>
    rw [quotedLength_cons_cons, if_neg h, if_pos rfl, if_pos rfl, List.take_succ_cons,
      List.take_succ_cons, quotedLength_cons_cons, if_neg h, if_pos rfl, if_pos rfl, ih]
  | case5 d rest h hd =>
    rw [quotedLength_cons_cons, if_neg h, if_pos rfl, if_neg hd]
    rfl
  | case6 c d rest h hc ih =>
    obtain ⟨n, hn⟩ := Nat.exists_eq_add_one_of_ne_zero (@quotedLength_pos quote d rest).ne'
    rw [quotedLength_cons_cons, if_neg h, if_neg hc, List.take_succ_cons]
    rw [hn, List.take_succ_cons] at ih ⊢
    rw [quotedLength_cons_cons, if_neg h, if_neg hc, ih]

/-- A quoted run behind which the text goes on is closed, and stays as it is in other places. -/
theorem written_quotedRun {d : Char} (hq : isQuote c = true)
    (h : quotedLength c (run ++ d :: rest) = run.length) :
    Written (c :: run) [(quoteKind c, unquote c run)] := by
  have hcloses : quoteCloses c run = true := by
    rw [← Bool.not_eq_false]
    exact fun hopen => absurd (lt_quotedLength_append hopen d rest) (by rw [h]; exact Nat.lt_irrefl _)
  have hlength : quotedLength c run = run.length := by
    have htake := quotedLength_take c (run ++ d :: rest)
    rwa [h, List.take_left] at htake
  rintro _ ⟨s, behind, rfl, hs⟩
  have hne : s ≠ c := by
    have all : [',', ')'].all (!isQuote ·) = true := by decide
    rintro rfl
    simpa [hq] using List.all_eq_true.1 all s hs
  have hhead : head c (run ++ s :: behind) = (.quoted (quoteKind c) c, run.length) := by
    rw [head_of_quote hq, runLength_of_quote hq,
      quotedLength_append (ne_backslash_of_isQuote hq) hne hcloses, hlength]
  rw [List.cons_append, contents_of_head hhead]
  rfl

end Quotes

section Lexemes

/-- Only a parenthesis is read as a closing parenthesis. -/
theorem eq_of_token?_closeParen {text : String}
    (h : (head c cs).1.token? c (cs.take (head c cs).2) = some (.closeParen, text)) :
    c = ')' ∧ (head c cs).2 = 0 := by
  cases runStart c cs with
  | quote hq =>
    rw [head_of_quote hq, quoteKind] at h
    split_ifs at h <;> cases h
  | hash | dashes | block =>
    rw [head_of_comment rfl] at h
    contradiction
  | plain hq hn =>
    rw [head_of_plain hq hn] at h ⊢
    split_ifs at h ⊢ with hblank hdigit hword
    · contradiction
    · cases h
    · have hkind : wordKind _ = .closeParen := (Prod.mk.inj (Option.some.inj h)).1
      unfold wordKind at hkind
      split at hkind <;> cases hkind
    · cases hs : symbol? c with
      | none => simp [hs, token?] at h
      | some kind =>
        rw [hs] at h
        obtain rfl : kind = .closeParen := (Prod.mk.inj (Option.some.inj h)).1
        refine ⟨?_, rfl⟩
        unfold symbol? at hs
        split at hs <;> first | rfl | cases hs

/-- An identifier in front of more text is the same identifier in other places. -/
theorem written_identifier {kind : TokenKind} {text : String} {d : Char}
    (hhead : (head c (run ++ d :: rest)).2 = run.length)
    (h : (head c (run ++ d :: rest)).1.token? c run = some (kind, text))
    (hkind : kind = .identifier ∨ kind = .quotedIdentifier) :
    Written (c :: run) [(kind, text)] := by
  generalize htext : run ++ d :: rest = behind at hhead h
  cases runStart c behind with
  | quote hq =>
    subst htext
    rw [head_of_quote hq] at h hhead
    cases h
    rw [runLength_of_quote hq] at hhead
    exact written_quotedRun hq hhead
  | hash | dashes | block =>
    rw [head_of_comment rfl] at h
    contradiction
  | plain hq hn =>
    rw [head_of_plain hq hn] at h hhead
    split_ifs at h hhead with hblank hdigit hword
    · contradiction
    · cases h
      obtain hkind | hkind := hkind <;> cases hkind
    · obtain ⟨rfl, rfl⟩ := Prod.mk.inj (Option.some.inj h)
      have hisWord : isWord (String.ofList (c :: run)) = true := by
        have htake := isWord_take hword behind
        rwa [show wordLength behind = run.length from hhead, ← htext, List.take_left] at htake
      have hidentifier : wordKind (String.ofList (c :: run)) = .identifier := by
        refine hkind.resolve_right fun hquoted => ?_
        unfold wordKind at hquoted
        split at hquoted <;> cases hquoted
      have hwritten := written_word hisWord hidentifier
      rwa [String.toList_ofList, ← hidentifier] at hwritten
    · cases hs : symbol? c with
      | none => simp [hs, token?] at h
      | some symbol =>
        rw [hs] at h
        obtain rfl : symbol = kind := (Prod.mk.inj (Option.some.inj h)).1
        unfold symbol? at hs
        split at hs <;> cases hs <;> obtain hkind | hkind := hkind <;> cases hkind

end Lexemes

section Places

variable {source : String} {here : Location} {ts us before after : List Token} {t u close : Token}

/-- Where a token stands, and the lexeme that it is made of. -/
theorem exists_lexeme (here : Location) (h : lexFrom here [] cs = ts ++ t :: us) :
    ∃ front c run back, cs = front ++ c :: (run ++ back) ∧ Whole front (c :: (run ++ back)) ∧
      (head c (run ++ back)).2 = run.length ∧
      (head c (run ++ back)).1.token? c run = some t.content ∧
      t.span = (here.advance front).spanTo (here.advance (front ++ c :: run)) ∧
      lexFrom (here.advance front) [] (c :: (run ++ back)) = t :: us ∧
      lexFrom (here.advance (front ++ c :: run)) [] back = us := by
  obtain ⟨front, c, rest, rfl, hwhole, hlex, htoken⟩ := exists_whole here ts cs h
  have hrest : rest.take (head c rest).2 ++ rest.drop (head c rest).2 = rest :=
    List.take_append_drop _ rest
  have hcons := hlex
  rw [lexFrom_nil_cons, lexemeToken?, htoken, ← Location.advance_append] at hcons
  obtain ⟨ht, hback⟩ := List.cons.inj hcons
  refine ⟨front, c, rest.take (head c rest).2, rest.drop (head c rest).2, ?_⟩
  rw [hrest]
  refine ⟨rfl, hwhole, (List.length_take_of_le (head_le c rest)).symm, htoken, ?_, hlex, hback⟩
  rw [← ht]

theorem offset_advance_start (cs : List Char) : (Location.start.advance cs).offset = utf8Len cs := by
  rw [Location.offset_advance, Location.start, Nat.zero_add]

theorem stop_spanTo (front run : List Char) :
    ((Location.start.advance front).spanTo (Location.start.advance (front ++ run))).stop =
      utf8Len front + utf8Len run := by
  rw [Location.spanTo, Span.stop, offset_advance_start, offset_advance_start,
    String.utf8Len_append, Nat.add_sub_cancel_left]

theorem stop_spanTo_behind (front mid run : List Char) :
    (((Location.start.advance front).advance mid).spanTo
      ((Location.start.advance front).advance (mid ++ run))).stop =
      utf8Len front + utf8Len (mid ++ run) := by
  rw [← Location.advance_append, ← Location.advance_append, ← List.append_assoc, stop_spanTo,
    String.utf8Len_append, String.utf8Len_append, Nat.add_assoc]

theorem toList_sourceText {front raw back : List Char}
    (h : source.toList = front ++ raw ++ back) (hfirst : ts.head? = some t)
    (hlast : ts.getLast? = some u) (hstart : t.span.offset = utf8Len front)
    (hstop : u.span.stop = utf8Len front + utf8Len raw) : (sourceText source ts).toList = raw := by
  rw [sourceText, hfirst, hlast]
  dsimp only
  rw [hstart, hstop]
  exact toList_slice h

/-- Where tokens stand that follow one another: they begin and end between characters. -/
theorem exists_excerpt (h : tokenize source = before ++ (ts ++ after)) (hfirst : ts.head? = some t)
    (hlast : ts.getLast? = some u) : ∃ front raw back, source.toList = front ++ raw ++ back ∧
      raw ≠ [] ∧ t.span.offset = utf8Len front ∧ u.span.stop = utf8Len front + utf8Len raw := by
  obtain ⟨us, rfl⟩ := List.head?_eq_some_iff.1 hfirst
  obtain ⟨ms, hms⟩ := List.getLast?_eq_some_iff.1 hlast
  obtain ⟨front, c, run, back, hsource, -, -, -, hspan, hlex, -⟩ := exists_lexeme .start h
  have hlex : lexFrom (Location.start.advance front) [] (c :: (run ++ back)) =
      ms ++ u :: after := by
    rw [hlex]
    change t :: us ++ after = _
    rw [hms, List.append_assoc, List.singleton_append]
  obtain ⟨mid, d, run', back', hcs, -, -, -, hspan', -, -⟩ :=
    exists_lexeme (Location.start.advance front) hlex
  refine ⟨front, mid ++ d :: run', back', by rw [hsource, hcs]; simp, by simp, ?_, ?_⟩
  · rw [hspan, Location.spanTo, offset_advance_start]
  · rw [hspan', stop_spanTo_behind]

theorem stop_lt_stop (h : tokenize source = before ++ (ts ++ (us ++ after)))
    (hlast : ts.getLast? = some t) (hlast' : us.getLast? = some u) : t.span.stop < u.span.stop := by
  obtain ⟨ts, rfl⟩ := List.getLast?_eq_some_iff.1 hlast
  obtain ⟨us, rfl⟩ := List.getLast?_eq_some_iff.1 hlast'
  have htokens : tokenize source = before ++ ts ++ t :: (us ++ u :: after) := by
    rw [h]
    simp
  obtain ⟨front, c, run, back, -, -, -, -, hspan, -, hback⟩ := exists_lexeme .start htokens
  obtain ⟨mid, d, run', back', -, -, -, -, hspan', -, -⟩ := exists_lexeme _ hback
  have hpos : 0 < d.utf8Size := d.utf8Size_pos
  rw [hspan, hspan', stop_spanTo, stop_spanTo_behind, String.utf8Len_append, String.utf8Len_append,
    String.utf8Len_cons d]
  omega

/-- Tokens with more tokens behind them have another text. -/
theorem sourceText_append_ne (h : tokenize source = before ++ (ts ++ us ++ after)) (hts : ts ≠ [])
    (hus : us ≠ []) : sourceText source (ts ++ us) ≠ sourceText source ts := by
  obtain ⟨first, hfirst⟩ := Option.ne_none_iff_exists'.1 (mt List.head?_eq_none_iff.1 hts)
  obtain ⟨t, ht⟩ := Option.ne_none_iff_exists'.1 (mt List.getLast?_eq_none_iff.1 hts)
  obtain ⟨u, hu⟩ := Option.ne_none_iff_exists'.1 (mt List.getLast?_eq_none_iff.1 hus)
  have h' : tokenize source = before ++ (ts ++ (us ++ after)) := by rw [h, List.append_assoc]
  have hlt : t.span.stop < u.span.stop := stop_lt_stop h' ht hu
  have hfirst' : (ts ++ us).head? = some first := by simp [hfirst]
  have hu' : (ts ++ us).getLast? = some u := by simp [hu]
  obtain ⟨front, raw, back, hsource, -, hstart, hstop⟩ := exists_excerpt h' hfirst ht
  obtain ⟨front', raw', back', hsource', -, hstart', hstop'⟩ := exists_excerpt h hfirst' hu'
  intro heq
  have hraw : raw' = raw := by
    rw [← toList_sourceText hsource hfirst ht hstart hstop, ← heq,
      toList_sourceText hsource' hfirst' hu' hstart' hstop']
  rw [hraw, ← hstart', hstart] at hstop'
  omega

/-- An identifier with a token behind it, as an excerpt. -/
theorem written_sourceText_single (h : tokenize source = before ++ t :: u :: after)
    (hkind : t.isIdentifier = true) :
    Written (sourceText source [t]).toList ([t].map Token.content) := by
  obtain ⟨front, c, run, back, hsource, -, hhead, htoken, hspan, -, hback⟩ :=
    exists_lexeme .start h
  obtain ⟨d, back, rfl⟩ : ∃ d behind, back = d :: behind := by
    refine List.exists_cons_of_ne_nil fun hnil => ?_
    rw [hnil, lexFrom] at hback
    contradiction
  have hraw : (sourceText source [t]).toList = c :: run := by
    have htext : source.toList = front ++ c :: run ++ d :: back := by
      rw [hsource, List.append_assoc, List.cons_append]
    refine toList_sourceText (t := t) (u := t) htext rfl rfl ?_ ?_
    · rw [hspan, Location.spanTo, offset_advance_start]
    · rw [hspan, stop_spanTo]
  rw [hraw]
  exact written_identifier hhead htoken (by simpa [Token.isIdentifier] using hkind)

/-- Tokens up to a closing parenthesis, as an excerpt. -/
theorem written_sourceText_closed (h : tokenize source = before ++ (t :: us ++ close :: after))
    (hclose : close.kind = .closeParen) :
    Written (sourceText source (t :: us ++ [close])).toList
      ((t :: us ++ [close]).map Token.content) := by
  obtain ⟨front, c, run, back, hsource, -, -, -, hspan, hlex, -⟩ := exists_lexeme .start h
  replace hlex : lexFrom (Location.start.advance front) [] (c :: (run ++ back)) =
      t :: us ++ close :: after := hlex
  obtain ⟨mid, d, run', back', hcs, hwhole, hlength, htoken, hspan', hlex', -⟩ :=
    exists_lexeme (Location.start.advance front) hlex
  rw [Token.content, hclose] at htoken
  obtain ⟨rfl, hnone⟩ : d = ')' ∧ (head d (run' ++ back')).2 = 0 :=
    eq_of_token?_closeParen (by rwa [hlength, List.take_left])
  obtain rfl : run' = [] := List.eq_nil_of_length_eq_zero (hlength.symm.trans hnone)
  rw [List.nil_append] at hcs hwhole hlex'
  have hparen (rest : List Char) : contents (')' :: rest) = (.closeParen, ")") :: contents rest :=
    contents_symbol (by decide) rfl rest
  have happend (rest : List Char) : contents (mid ++ ')' :: rest) =
      contents mid ++ contents (')' :: rest) :=
    contents_append (separates_of_mem (by decide)) (hwhole.endsOpen (by decide)) rest
  have hback : (close :: after).map Token.content = contents (')' :: back') := by
    rw [← hlex', map_content_lexFrom]
    rfl
  have hmid : (t :: us).map Token.content = contents mid := by
    have hall : (t :: us ++ close :: after).map Token.content = contents (mid ++ ')' :: back') := by
      rw [← hcs, ← hlex, map_content_lexFrom]
      rfl
    rw [List.map_append, happend, ← hback] at hall
    exact List.append_cancel_right hall
  have hlast : close.content = (.closeParen, ")") := by
    rw [hparen] at hback
    exact (List.cons.inj hback).1
  have hraw : (sourceText source (t :: us ++ [close])).toList = mid ++ [')'] := by
    have htext : source.toList = front ++ (mid ++ [')']) ++ back' := by
      rw [hsource, hcs]
      simp
    refine toList_sourceText htext rfl List.getLast?_concat ?_ ?_
    · rw [hspan, Location.spanTo, offset_advance_start]
    · rw [hspan', stop_spanTo_behind]
  intro rest _
  rw [hraw, List.append_assoc, List.singleton_append, happend, hparen, ← hmid, List.map_append,
    List.map_singleton, hlast, List.append_assoc]
  rfl

end Places

end TypedTables
