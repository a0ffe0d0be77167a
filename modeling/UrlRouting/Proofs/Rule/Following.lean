import UrlRouting.Proofs.Rule.Rebuilding

/-
  What a rule reads of a path that it redirects to.
  The path is built from the values, so a variable may stand in it with another text than in the
  path that was read. Where each variable keeps its text or has one place in the new path
  (`Pattern.HasOnePlace`), and the slash at the end is left to its own place (`LeaveSlash`), the
  rule finds the written texts there, and with them the same values (`read?_of_redirect`).
-/

namespace UrlRouting

open Template (EndsInOneSlash)

/-! ## Variables with one place -/

/-- A name stands for one variable only. -/
theorem eq_of_append_capture {before before' after after' : List Part} {name : String}
    {c c' : Converter}
    (hnodup : (((before ++ .capture name c :: after).filterMap Part.capture?).map Prod.fst).Nodup)
    (h : before ++ .capture name c :: after = before' ++ .capture name c' :: after') :
    before = before' ∧ c = c' ∧ after = after' := by
  have honce : ∀ front middle back d d', before ++ .capture name c :: after ≠
      front ++ .capture name d :: (middle ++ .capture name d' :: back) := by
    rintro front middle back d d' htwice
    rw [htwice] at hnodup
    simp [List.filterMap_append, Part.capture?, List.nodup_append, List.nodup_cons] at hnodup
  rcases List.append_eq_append_iff.1 h with ⟨m, rfl, hm⟩ | ⟨m, rfl, hm⟩
  · cases m with
    | nil =>
      obtain ⟨hcapture, rfl⟩ := List.cons.inj hm
      obtain ⟨-, rfl⟩ := Part.capture.inj hcapture
      exact ⟨(List.append_nil before).symm, rfl, rfl⟩
    | cons q m =>
      obtain ⟨rfl, rfl⟩ := List.cons.inj hm
      exact absurd rfl (honce before m after' c c')
  · cases m with
    | nil =>
      obtain ⟨hcapture, rfl⟩ := List.cons.inj hm
      obtain ⟨-, rfl⟩ := Part.capture.inj hcapture
      exact ⟨List.append_nil before', rfl, rfl⟩
    | cons q m =>
      obtain ⟨rfl, rfl⟩ := List.cons.inj hm
      exact absurd (List.append_assoc before' (.capture name c' :: m) _)
        (honce before' m after c' c)

namespace Pattern

variable {p : Pattern}

/-- Whether the variable has one place only in a text: in however many ways the pattern divides it,
they cut the text of this variable off alike. -/
def HasOnePlace (p : Pattern) (text : List Char) (name : String) : Prop :=
  ∀ before c after, p.body = before ++ .capture name c :: after → CutOnce before c after text

/-- A variable has one place in every text between two marks, characters in the literal text on each
side of it that its own texts never hold, if one of them is in no text of the variables on its left
or in none of those on its right. -/
theorem hasOnePlace_of_marks (hopen : p.slashes = .optional) (hnodup : p.variables.Nodup)
    {before after : List Part} {name left right : String} {c : Converter} {a b mark : Char}
    (hparts : p.parts = before ++ .literal left :: .capture name c :: .literal right :: after)
    (ha : a ∈ left.toList) (hb : b ∈ right.toList)
    (hmarks : ∀ text, c.Accepts text → a ∉ text ∧ b ∉ text) (hmark : mark = a ∨ mark = b)
    (hside : Avoids mark (before.map Part.piece) ∨ Avoids mark (after.map Part.piece))
    (text : List Char) : p.HasOnePlace text name := by
  intro before' c' after' hbody'
  have hbody : p.body = (before ++ [.literal left]) ++
      .capture name c :: dropSlashes (.literal right :: after) := by
    rw [body_of_optional hopen, hparts, ← dropSlashes_append_capture, List.append_assoc,
      List.singleton_append]
  have hnames : ((p.body.filterMap Part.capture?).map Prod.fst).Nodup := by
    rw [captures_body]
    exact hnodup
  rw [hbody] at hnames
  obtain ⟨rfl, rfl, rfl⟩ := eq_of_append_capture hnames (hbody.symm.trans hbody')
  refine Marked.cutOnce
    ⟨hmarks, behind_literal before ha, ahead_dropSlashes hb after, mark, hmark, ?_⟩ text
  refine hside.imp (avoids_of_converters ?_) (avoids_of_converters ?_)
  · simp [Part.converters, Part.capture?]
  · exact converters_dropSlashes _

/-! ## Texts that are written instead -/

/-- Whether each variable has the text that is written of its value, or one place only in a text. -/
def MayRewrite (p : Pattern) (values : Values) (whole : List Char) (texts : List (List Char)) :
    Prop :=
  List.Forall₂
    (fun capture text => WritesCapture values capture text ∨ p.HasOnePlace whole capture.1)
    p.captures texts

theorem rewrites_of_writes {values : Values} {whole : List Char} {before parts : List Part}
    {texts written : List (List Char)}
    (hbody : p.body = before ++ parts)
    (haccepts : List.Forall₂ Converter.Accepts (Part.converters parts) texts)
    (hreads : List.Forall₂ (ReadsCapture values) (parts.filterMap Part.capture?) texts)
    (hwrites : List.Forall₂ (WritesCapture values) (parts.filterMap Part.capture?) written)
    (hmay : List.Forall₂
      (fun capture text => WritesCapture values capture text ∨ p.HasOnePlace whole capture.1)
      (parts.filterMap Part.capture?) texts) :
    Rewrites whole before parts texts written ∧
      List.Forall₂ Converter.Accepts (Part.converters parts) written ∧
        List.Forall₂ (ReadsCapture values) (parts.filterMap Part.capture?) written := by
  induction parts generalizing before texts written with
  | nil =>
    obtain rfl := List.forall₂_nil_left_iff.1 haccepts
    obtain rfl := List.forall₂_nil_left_iff.1 hwrites
    exact ⟨.nil, .nil, .nil⟩
  | cons q parts ih =>
    have hbody' : p.body = (before ++ [q]) ++ parts := by
      rw [hbody, List.append_assoc, List.singleton_append]
    cases q with
    | literal text =>
      obtain ⟨hrewrites, hmore⟩ := ih hbody' haccepts hreads hwrites hmay
      exact ⟨.literal hrewrites, hmore⟩
    | capture name c =>
      obtain ⟨t, ts, htaccepts, hts, rfl⟩ := List.forall₂_cons_left_iff.1 haccepts
      obtain ⟨w, ws, ⟨v, hv, hwrite⟩, hws, rfl⟩ := List.forall₂_cons_left_iff.1 hwrites
      obtain ⟨⟨v', hv', hread⟩, htsreads⟩ := List.forall₂_cons.1 hreads
      obtain rfl := Option.some.inj (hv.symm.trans hv')
      obtain ⟨hfirst, htsmay⟩ := List.forall₂_cons.1 hmay
      obtain ⟨hrewrites, hmoreaccepts, hmorereads⟩ := ih hbody' hts htsreads hws htsmay
      obtain ⟨hwaccepts, hwread⟩ := Converter.reads_of_write htaccepts hread hwrite
      refine ⟨?_, .cons hwaccepts hmoreaccepts, .cons ⟨v, hv, hwread⟩ hmorereads⟩
      by_cases hkeep : w = t
      · rw [hkeep]
        exact .keep htaccepts hrewrites
      · have hplain := (Converter.eq_or_ne_nil_of_write hread hwrite).resolve_left hkeep w hwaccepts
        have honce : p.HasOnePlace whole name := by
          refine hfirst.resolve_left ?_
          rintro ⟨v', hv', hwrite'⟩
          obtain rfl := Option.some.inj (hv.symm.trans hv')
          exact hkeep (String.ofList_injective (Except.ok.inj (hwrite.symm.trans hwrite')))
        exact .replace (honce before c parts hbody) htaccepts hwaccepts hplain hrewrites

/-! ## The slash at the end -/

/-- With a slash behind it, a path in which texts are replaced is read as the new texts. -/
theorem read?_rewritten (hnames : p.hasPlainNames = true) (hopen : p.slashes = .optional)
    {path : String} {texts written : List (List Char)}
    (hread : p.read? path = some ⟨texts.map String.ofList, false⟩)
    (hrewrites : Rewrites (Part.interleave p.body written).flatten [] p.body texts written)
    (haccepts : List.Forall₂ Converter.Accepts (Part.converters p.parts) written)
    (hleave : LeaveSlash (p.body.map Part.piece)
      ((Part.interleave p.body written).flatten ++ ['/'])) :
    p.read? (String.ofList ((Part.interleave p.body written).flatten ++ ['/'])) =
      some ⟨written.map String.ofList, true⟩ := by
  obtain ⟨texts', slash, -, hsplit, hguard, hreading⟩ :=
    (read?_optional_eq_some_iff hnames hopen).1 hread
  obtain ⟨htexts, hslash⟩ := PathReading.mk.inj hreading
  obtain rfl := List.map_injective_iff.2 (fun _ _ => String.ofList_injective) htexts
  have hend : path.toList.getLast? ≠ some '/' := of_decide_eq_false hslash.symm
  obtain rfl : slash = [] := by
    obtain ⟨d, slash', before, heq, hdivided, -, hslash'⟩ :=
      divides_optionalSlash_iff.1 (divides_of_firstSplit hsplit)
    obtain rfl : slash = slash' := List.head_eq_of_cons_eq (List.append_inj' heq rfl).2
    refine hslash'.resolve_right ?_
    rintro rfl
    exact hend (by rw [hdivided, List.getLast?_concat])
  have hfirst := firstSplit_of_optionalSlash hsplit
  rw [← (divides_of_firstSplit hfirst).2] at hfirst
  have hwritten := firstSplit_append_slash hleave (firstSplit_rewrite hrewrites hfirst)
  have hguard' : (Part.interleave p.body written).flatten.getLast? ≠ some '/' := by
    rcases getLast?_of_rewrites hrewrites with heq | ⟨c, hc, hne⟩
    · rwa [heq]
    · rw [hc]
      exact fun heq => hne (Option.some.inj heq)
  refine (read?_optional_eq_some_iff hnames hopen).2
    ⟨written, ['/'], haccepts, ?_, hguard', ?_⟩
  · rw [String.toList_ofList]
    exact hwritten
  · rw [String.toList_ofList, List.getLast?_concat, decide_eq_true rfl]

end Pattern

namespace Rule

variable {r : Rule} {p : Pattern}

/-- What a rule reads of a path that it redirects to, when all variables keep their texts or have
one place there: the values with which it redirects, and no further redirect. -/
theorem read?_of_redirect (h : r.Compiled p) (hend : EndsInOneSlash r.template.toList)
    {path target : String} {values : Values} (hread : r.read? path = .ok (some ⟨values, true⟩))
    (hbuild : r.build values = .ok target)
    (hleave : LeaveSlash (p.body.map Part.piece) target.toList)
    (hmay : ∀ reading, p.read? path = some reading →
      p.MayRewrite values target.toList.dropLast (reading.texts.map String.toList)) :
    r.read? target = .ok (some ⟨values, false⟩) := by
  obtain ⟨texts, hp, haccepts, hreads, hcovers, hredirect⟩ := exists_texts_of_read? h hread
  obtain ⟨hopen, hpath⟩ := hredirect.1 rfl
  have hslashes := h.slashes_eq.trans hopen
  have hmay' : p.MayRewrite values target.toList.dropLast texts := by
    have hback : (texts.map String.ofList).map String.toList = texts := by
      rw [List.map_map]
      exact List.map_id'' (fun t => String.toList_ofList) texts
    exact hback ▸ hmay _ hp
  -- the written texts take the place of those that were read
  obtain ⟨written, hwrites, rfl⟩ := exists_texts_of_build h hbuild
  rw [h.flatten_interleave_body hopen hend] at hleave hmay' ⊢
  rw [String.toList_ofList] at hleave hmay'
  rw [List.dropLast_concat] at hmay'
  unfold Pattern.MayRewrite at hmay'
  rw [← p.captures_body] at hreads hwrites hmay'
  obtain ⟨hrewrites, hwaccepts, hwreads⟩ := Pattern.rewrites_of_writes
    (List.nil_append p.body).symm (p.converters_body ▸ haccepts) hreads hwrites hmay'
  rw [decide_eq_false hpath] at hp
  have htarget := Pattern.read?_rewritten h.hasPlainNames hslashes hp hrewrites
    (p.converters_body ▸ hwaccepts) hleave
  rw [read?_of_texts h htarget (p.captures_body ▸ hwreads) hcovers]
  simp

end Rule

end UrlRouting
