import EnbL1Ppc.Gser.Grammar

namespace EnbL1Ppc.Gser

open Lib Logged

section Loops

variable {env : Env} {c : Cursor} {n : ℕ}

theorem decodePrimitive_writes {p : Primitive} {v : Value} {path : List ℕ} {ws text rest : Text}
    (hbound : 2 ≤ env.bound) (hw : Blank ws) (h : p.Writes v text) (hr : Delimited rest) :
    (decodePrimitive env p path (ws ++ (text ++ rest))).res =
      some (.ok (ws.length + text.length) v) := by
  obtain ⟨t, hbody, hlex⟩ := h.lexeme
  obtain ⟨w, hv, hrec⟩ := h.received
  have ht := hlex rest hr
  have hlen : text.length ≠ 0 := by
    obtain ⟨c, l, rfl, -⟩ := ht.head
    simp
  have hnext : ¬ InText (rest.headD env.after) := by
    cases rest with
    | nil => exact hr.elim
    | cons d rest => exact hr
  have hgen : (gserDecodeGeneral env p path (ws ++ (text ++ rest))).res =
      some (.ok (ws.length + text.length) w) := by
    rw [gserDecodeGeneral, bind_res (skipSpaces_lexeme env hbound rfl rfl hw ht),
      bind_res (readToken_res _)]
    simp only [Option.any_some, hbody, if_true, List.take_left, List.drop_left, hrec _ _ hnext]
    simp [hlen, Cursor.start]
  rw [decodePrimitive, bind_res hgen]
  simp [Primitive.wrap, hv]

theorem seekMember_blank {name : Text} {optional : Bool} {braces : ℤ} {t : Token}
    {ws tok rest : Text} (hbound : 2 ≤ env.bound) (hn : 1 ≤ n) (hs : c.state = .initial)
    (hbuf : c.buf = ws ++ (tok ++ rest)) (hw : Blank ws) (ht : Lexeme t tok rest)
    (hopt : t = .text ∨ t = .closeBracket ∧ optional = true) :
    (seekMember env name optional n c braces).res = some (.text
      ⟨.initial, some .text, tok ++ rest, c.consumed + ws.length⟩ tok.length braces) := by
  obtain ⟨k, rfl⟩ := Nat.exists_eq_add_of_le' hn
  have hlen : tok.length ≠ 0 := by
    obtain ⟨c, l, rfl, -⟩ := ht.head
    simp
  rw [seekMember, bind_res (skipSpaces_lexeme env hbound hs hbuf hw ht)]
  rcases hopt with rfl | ⟨rfl, rfl⟩ <;> simp [hlen]

theorem seekMember_lead {name : Text} {optional : Bool} {braces : ℤ} {t : Token}
    {lead tok rest : Text} (hbound : 2 ≤ env.bound) (hn : 2 ≤ n) (hs : c.state = .initial)
    (hl : Lead braces lead) (hbuf : c.buf = lead ++ (tok ++ rest)) (ht : Lexeme t tok rest)
    (hopt : t = .text ∨ t = .closeBracket ∧ optional = true) :
    (seekMember env name optional n c braces).res = some (.text
      ⟨.initial, some .text, tok ++ rest, c.consumed + lead.length⟩ tok.length 1) := by
  obtain ⟨k, rfl⟩ := Nat.exists_eq_add_of_le' hn
  cases hl with
  | blank hw => exact seekMember_blank hbound (by omega) hs hbuf hw ht hopt
  | @mark _ m t ws ws' hm hw hw' =>
    have hbuf' : c.buf = ws ++ ([m] ++ (ws' ++ (tok ++ rest))) := by simp [hbuf]
    have hround : (seekMember env name optional (k + 2) c braces).res =
        (seekMember env name optional (k + 1)
          ⟨.initial, some t, ws' ++ (tok ++ rest), c.consumed + ws.length + 1⟩ 1).res := by
      rw [seekMember, bind_res (skipSpaces_lexeme env hbound hs hbuf' hw (hm.lexeme _))]
      cases hm <;> rfl
    rw [hround, seekMember_blank hbound (by omega) rfl rfl hw' ht hopt]
    simp only [List.length_append, List.length_cons]
    congr 3
    omega

theorem closeSequence_blank {v : Value} {ws rest : Text} (hbound : 2 ≤ env.bound) (hn : 1 ≤ n)
    (hs : c.state = .initial) (hbuf : c.buf = ws ++ ([charCloseBracket] ++ rest))
    (hw : Blank ws) :
    (closeSequence env v n c 1).res = some (.ok (c.consumed + ws.length + 1) v) := by
  obtain ⟨k, rfl⟩ := Nat.exists_eq_add_of_le' hn
  rw [closeSequence, bind_res (skipSpaces_lexeme env hbound hs hbuf hw (lexeme_closeBracket _)),
    bind_res (readToken_res _)]
  simp [Skipped.advanced, Cursor.advance]

theorem closeSequence_lead {v : Value} {braces : ℤ} {lead rest : Text} (hbound : 2 ≤ env.bound)
    (hn : 2 ≤ n) (hs : c.state = .initial) (hl : Lead braces lead)
    (hbuf : c.buf = lead ++ ([charCloseBracket] ++ rest)) :
    (closeSequence env v n c braces).res = some (.ok (c.consumed + lead.length + 1) v) := by
  obtain ⟨k, rfl⟩ := Nat.exists_eq_add_of_le' hn
  cases hl with
  | blank hw => exact closeSequence_blank hbound (by omega) hs hbuf hw
  | @mark _ m t ws ws' hm hw hw' =>
    have hbuf' : c.buf = ws ++ ([m] ++ (ws' ++ ([charCloseBracket] ++ rest))) := by simp [hbuf]
    have hround : (closeSequence env v (k + 2) c braces).res =
        (closeSequence env v (k + 1) ⟨.initial, some t, ws' ++ ([charCloseBracket] ++ rest),
          c.consumed + ws.length + 1⟩ 1).res := by
      rw [closeSequence, bind_res (skipSpaces_lexeme env hbound hs hbuf' hw (hm.lexeme _)),
        bind_res (readToken_res _)]
      cases hm <;> simp [Skipped.advanced, Cursor.advance]
    rw [hround, closeSequence_blank hbound (by omega) rfl rfl hw']
    simp only [List.length_append, List.length_cons]
    congr 2
    omega

def ReadsAll (W : Value → Text → Prop) (k : ℕ) (element : List ℕ → Text → Logged Event Rval) :
    Prop :=
  ∀ {path v ws text rest}, Blank ws → W v text → text.length ≤ k → Delimited rest →
    (element path (ws ++ (text ++ rest))).res = some (.ok (ws.length + text.length) v)

theorem Items.length_le {W : Value → Text → Prop} {vs : List Value} {body : Text}
    (h : Items W vs body) : vs.length ≤ body.length := by
  induction h with
  | last =>
    simp only [List.length_append, List.length_cons, List.length_nil]
    omega
  | cons _ _ _ _ ih =>
    simp only [List.length_append, List.length_cons]
    omega

theorem setOfLoop_mark {element : List ℕ → Text → Logged Event Rval} {path : List ℕ}
    {braces : ℤ} {m : UInt8} {t : Token} {ws : Text} (ws' text rest : Text) {v : Value}
    {acc : List Value} (hbound : 2 ≤ env.bound) (hs : c.state = .initial) (hm : Mark braces m t)
    (hw : Blank ws) (hbuf : c.buf = ws ++ m :: (ws' ++ (text ++ rest)))
    (hv : (element (acc.length :: path) (ws' ++ (text ++ rest))).res =
      some (.ok (ws'.length + text.length) v)) :
    (setOfLoop env element path (n + 1) c braces acc).res =
      (setOfLoop env element path n ⟨.initial, some t, rest,
        c.consumed + ws.length + 1 + (ws'.length + text.length)⟩ 1 (acc ++ [v])).res := by
  have hrest : (ws' ++ (text ++ rest)).drop (ws'.length + text.length) = rest := by
    rw [← List.append_assoc, ← List.length_append, List.drop_left]
  have hbuf' : c.buf = ws ++ ([m] ++ (ws' ++ (text ++ rest))) := hbuf
  rw [setOfLoop, bind_res (skipSpaces_lexeme env hbound hs hbuf' hw (hm.lexeme _))]
  cases hm with
  | openBracket =>
    dsimp only
    rw [if_neg (by simp)]
    refine (bind_res hv _).trans ?_
    simp [addElement, Skipped.advanced, Cursor.advance, hrest]
  | comma =>
    dsimp only
    rw [if_neg (by simp)]
    refine (bind_res hv _).trans ?_
    simp [addElement, Skipped.advanced, Cursor.advance, hrest]

theorem setOfLoop_close {element : List ℕ → Text → Logged Event Rval} {path : List ℕ}
    {ws rest : Text} {acc : List Value} (hbound : 2 ≤ env.bound) (hs : c.state = .initial)
    (hw : Blank ws) (hbuf : c.buf = ws ++ ([charCloseBracket] ++ rest)) :
    (setOfLoop env element path (n + 1) c 1 acc).res =
      some (.ok (c.consumed + ws.length + 1) (.list acc)) := by
  rw [setOfLoop, bind_res (skipSpaces_lexeme env hbound hs hbuf hw (lexeme_closeBracket _))]
  simp [Skipped.advanced, Cursor.advance]

theorem setOfLoop_items {W : Value → Text → Prop} {k : ℕ}
    {element : List ℕ → Text → Logged Event Rval} {path : List ℕ} {braces : ℤ} {m : UInt8}
    {t : Token} {ws body rest : Text} {vs acc : List Value} (hbound : 2 ≤ env.bound)
    (hel : ReadsAll W k element) (hm : Mark braces m t) (hw : Blank ws) (h : Items W vs body)
    (hk : body.length ≤ k) (hn : vs.length < n) (hs : c.state = .initial)
    (hbuf : c.buf = ws ++ m :: (body ++ rest)) :
    (setOfLoop env element path n c braces acc).res =
      some (.ok (c.consumed + ws.length + 1 + body.length) (.list (acc ++ vs))) := by
  induction h generalizing n c braces m t ws acc with
  | @last ws₁ ws₂ text v hw₁ hv hw₂ =>
    simp only [List.length_append, List.length_cons, List.length_nil] at hk hn
    obtain ⟨n, rfl⟩ := Nat.exists_eq_add_of_le' hn
    have hd : Delimited (ws₂ ++ ([charCloseBracket] ++ rest)) :=
      hw₂.delimited (delimited_closeBracket _)
    rw [setOfLoop_mark ws₁ text (ws₂ ++ ([charCloseBracket] ++ rest)) hbound hs hm hw
      (by simp [hbuf]) (hel hw₁ hv (by omega) hd), setOfLoop_close hbound rfl hw₂ rfl]
    simp only [List.length_append, List.length_cons, List.length_nil]
    congr 2
    omega
  | @cons ws₁ ws₂ text body v vs hw₁ hv hw₂ hvs ih =>
    simp only [List.length_append, List.length_cons] at hk hn
    obtain ⟨n, rfl⟩ := Nat.exists_eq_add_of_lt hn
    have hd : Delimited (ws₂ ++ charComma :: (body ++ rest)) :=
      hw₂.delimited (delimited_comma _)
    rw [setOfLoop_mark ws₁ text (ws₂ ++ charComma :: (body ++ rest)) hbound hs hm hw
      (by simp [hbuf]) (hel hw₁ hv (by omega) hd),
      ih .comma hw₂ (by omega) (by omega) rfl rfl]
    simp only [List.length_append, List.length_cons, List.append_assoc, List.singleton_append]
    congr 2
    omega

theorem choiceName_written {first : Option Text} {path : List ℕ} {ws ws' name rest : Text}
    (hbound : 2 ≤ env.bound) (hw : Blank ws) (hw' : Blank ws') (hname : IsIdentifier name) :
    (choiceName env first path (ws ++ (name ++ (ws' ++ charColon :: rest)))).res =
      some (⟨.initial, some .colon, rest, ws.length + name.length + ws'.length + 1⟩,
        .inl name) := by
  have ht := hname.lexeme (hw'.delimited (delimited_colon rest))
  have hlen : name.length ≠ 0 := by
    obtain ⟨c, l, rfl, -⟩ := ht.head
    simp
  have hcolon : (skipSpaces env env.bound
      ⟨.initial, some .text, ws' ++ charColon :: rest, ws.length + name.length⟩).res =
        some ⟨⟨.initial, some .colon, [charColon] ++ rest,
          ws.length + name.length + ws'.length⟩, 1, true⟩ :=
    skipSpaces_lexeme env hbound rfl rfl hw' (lexeme_colon rest)
  rw [choiceName, bind_res (skipSpaces_lexeme env hbound rfl rfl hw ht)]
  simp only [if_neg hlen, if_true, Skipped.advanced, Cursor.advance, List.drop_left,
    List.take_left, Cursor.start, Nat.zero_add]
  rw [bind_res hcolon]
  simp

end Loops

theorem nextElement_braced {path : List ℕ} {c : Cursor} {isLast : Bool}
    {vs : List (Option Value)} {loop : Cursor → ℤ → List (Option Value) → Logged Event Rval} :
    nextElement path c 1 isLast vs loop = loop c 1 vs := by
  simp [nextElement]

def Elements.Start (els : Elements) (body : Text) : Prop :=
  body = [charCloseBracket] ∨
    ∃ name tail, name ∈ els.names ∧ body = name ++ tail ∧ Delimited tail

section Members

variable {env : Env} {name : Text} {presence : Presence} {ty : Ty} {els : Elements}
  {path : List ℕ} {mark : Token} {start : Text} {i : ℕ} {c : Cursor} {braces : ℤ}
  {acc : List (Option Value)} {lead : Text}

theorem seekMember_absent (env : Env) (n : ℕ) {body rest : Text} (hbound : 2 ≤ env.bound)
    (hn : 2 ≤ n) (hs : c.state = .initial) (hl : Lead braces lead) (hname : IsIdentifier name)
    (hnew : name ∉ els.names) (hels : els.WellNamed) (h : els.Start body)
    (hbuf : c.buf = lead ++ (body ++ rest)) :
    ∃ size, (seekMember env name true n c braces).res =
        some (.text ⟨.initial, some .text, body ++ rest, c.consumed + lead.length⟩ size 1) ∧
      ¬ (size = name.length ∧ (body ++ rest).take size = name) := by
  rcases h with rfl | ⟨other, tail, ho, rfl, hd⟩
  · refine ⟨1, seekMember_lead hbound hn hs hl hbuf (lexeme_closeBracket rest)
      (.inr ⟨rfl, rfl⟩), ?_⟩
    rintro ⟨-, he⟩
    obtain rfl : [charCloseBracket] = name := he
    exact absurd hname.1 (by decide)
  · rw [List.append_assoc] at hbuf ⊢
    refine ⟨other.length, seekMember_lead hbound hn hs hl hbuf
      ((hels.isIdentifier ho).lexeme (hd.append rest)) (.inl rfl), ?_⟩
    rintro ⟨-, he⟩
    rw [List.take_left] at he
    exact hnew (he ▸ ho)

theorem decodeElements_absent {body rest : Text} (hbound : 2 ≤ env.bound)
    (hs : c.state = .initial) (hl : Lead braces lead)
    (hwf : (Elements.cons name presence ty els).WellNamed) (h : els.Start body)
    (hopt : presence.isOptional = true) (hbuf : c.buf = lead ++ (body ++ rest)) :
    (decodeElements env (.cons name presence ty els) path mark start i c braces acc).res =
      (decodeElements env els path mark start (i + 1)
        ⟨.initial, some .text, body ++ rest, c.consumed + lead.length⟩ 1
        (acc ++ [presence.absent])).res := by
  obtain ⟨size, hseek, hname⟩ := seekMember_absent env env.bound hbound hbound hs hl hwf.1
    hwf.2.1 hwf.2.2.2 h hbuf
  rw [decodeElements, hopt, bind_res hseek]
  dsimp only
  rw [if_neg hname, if_pos rfl, nextElement_braced]

def Rval.read (isEmpty : Bool) (n : ℕ) (v : Value) : Rval :=
  if isEmpty then .empty n v else .ok n v

theorem decodeElements_present {isEmpty : Bool} {k : ℕ} {v : Value} {after : Text}
    (hbound : 2 ≤ env.bound) (hs : c.state = .initial) (hl : Lead braces lead)
    (hname : IsIdentifier name) (hd : Delimited after) (hbuf : c.buf = lead ++ (name ++ after))
    (hv : (decodeTy env ty (i :: path) after).res = some (.read isEmpty k v)) :
    (decodeElements env (.cons name presence ty els) path mark start i c braces acc).res =
      (decodeElements env els path .comma (after.drop k) (i + 1) ⟨.initial, some .text,
        after.drop k, c.consumed + lead.length + name.length + k⟩ 1 (acc ++ [some v])).res := by
  rw [decodeElements,
    bind_res (seekMember_lead hbound hbound hs hl hbuf (hname.lexeme hd) (.inl rfl))]
  dsimp only
  rw [if_pos ⟨rfl, List.take_left⟩, tell_bind_res]
  simp only [Cursor.advance, List.drop_left]
  rw [bind_res hv]
  cases isEmpty with
  | true => simp only [Rval.read, if_true, tell_bind_res, nextElement_braced]
  | false => simp only [Rval.read, Bool.false_eq_true, if_false, nextElement_braced]

theorem decodeElements_fail {k : ℕ} {after : Text} (hbound : 2 ≤ env.bound)
    (hs : c.state = .initial) (hl : Lead braces lead) (hname : IsIdentifier name)
    (hd : Delimited after) (hbuf : c.buf = lead ++ (name ++ after))
    (hv : (decodeTy env ty (i :: path) after).res = some (.fail k)) :
    (decodeElements env (.cons name presence ty els) path mark start i c braces acc).res =
      some (.fail (c.consumed + lead.length + name.length)) := by
  rw [decodeElements,
    bind_res (seekMember_lead hbound hbound hs hl hbuf (hname.lexeme hd) (.inl rfl))]
  dsimp only
  rw [if_pos ⟨rfl, List.take_left⟩, tell_bind_res]
  simp only [Cursor.advance, List.drop_left]
  rw [bind_res hv, pure_res]

end Members

mutual
theorem decodeTy_written {env : Env} : ∀ {ty : Ty}, ty.WellFormed → ∀ {path : List ℕ}
    {v : Value} {ws text rest : Text}, Blank ws → Written ty v text →
    text.length + 3 ≤ env.bound → Delimited rest →
    (decodeTy env ty path (ws ++ (text ++ rest))).res = some (.ok (ws.length + text.length) v)
  | .prim p, _, _, _, _, _, _, hw, h, hb, hr => by
    rw [decodeTy]
    exact decodePrimitive_writes (by omega) hw h hr
  | .sequence els, hwf, path, _, ws, _, rest, hw, ⟨vs, ws', body, rfl, hw', hvs, rfl⟩, hb, hr => by
    have hl : Lead 0 (ws ++ charOpenBracket :: ws') := .mark .openBracket hw hw'
    simp only [List.length_cons, List.length_append] at hb
    rw [decodeTy, decodeElements_written hwf.2 hl hvs rfl
      (show _ = (ws ++ charOpenBracket :: ws') ++ (body ++ rest) by simp [Cursor.start]) (by omega)]
    simp only [Cursor.start, List.length_cons, List.length_append, List.nil_append]
    congr 2
    omega
  | .sequenceOf ty, hwf, path, _, ws, _, rest, hw, ⟨vs, body, rfl, hvs, rfl⟩, hb, hr => by
    have hty : ty.WellFormed := hwf
    have hlen := hvs.length_le
    simp only [List.length_cons] at hb
    have hel : ReadsAll (Written ty) (env.bound - 3) (decodeTy env ty) :=
      fun hw hv hk hr ↦ decodeTy_written hty hw hv (by omega) hr
    rw [decodeTy, setOfLoop_items (by omega) hel .openBracket hw hvs (by omega) (by omega) rfl
      (show _ = ws ++ charOpenBracket :: (body ++ rest) from rfl)]
    simp only [Cursor.start, List.length_cons, List.nil_append]
    congr 2
    omega
  | .choice els, hwf, path, _, ws, _, rest, hw,
      ⟨present, w, name, ws₁, ws₂, body, rfl, hw₁, hw₂, hv, rfl⟩, hb, hr => by
    have hnames : els.WellNamed := hwf
    have hbuf : ws ++ (name ++ (ws₁ ++ charColon :: (ws₂ ++ body)) ++ rest) =
        ws ++ (name ++ (ws₁ ++ charColon :: (ws₂ ++ (body ++ rest)))) := by simp
    simp only [List.length_append, List.length_cons] at hb
    rw [decodeTy, hbuf,
      bind_res (choiceName_written (by omega) hw hw₁ (hnames.isIdentifier hv.name_mem))]
    refine (decodeAlternative_written hnames hv hw₂ rfl (by omega) hr).trans ?_
    simp only [List.length_append, List.length_cons, Nat.zero_add]
    congr 2
    omega

theorem decodeElements_written {env : Env} : ∀ {els : Elements}, els.WellNamed →
    ∀ {path : List ℕ} {mark : Token} {start : Text} {i : ℕ} {c : Cursor} {braces : ℤ}
    {lead body rest : Text} {vs acc : List (Option Value)}, Lead braces lead → WrittenMembers els vs body →
    c.state = .initial → c.buf = lead ++ (body ++ rest) → body.length + 3 ≤ env.bound →
    (decodeElements env els path mark start i c braces acc).res =
      some (.ok (c.consumed + lead.length + body.length) (.sequence (acc ++ vs)))
  | .nil, _, _, _, _, _, _, _, _, _, _, _, _, hl, ⟨rfl, rfl⟩, hs, hbuf, hb => by
    rw [decodeElements, bind_res (closeSequence_lead (by omega) (by omega) hs hl hbuf),
      List.append_nil]
    rfl
  | .cons name presence ty els, hwf, path, _, _, i, c, braces, lead, body, rest, vs, acc, hl, h,
      hs, hbuf, hb => by
    rcases h with ⟨hopt, vs, rfl, h⟩ |
      ⟨v, vs, ws, text, lead', body', rfl, hne, hw, hv, hl', hd, h, rfl⟩
    · rw [decodeElements_absent (by omega) hs hl hwf h.start hopt hbuf,
        decodeElements_written hwf.2.2.2 (show Lead 1 [] from .blank (by simp [Blank])) h rfl rfl hb]
      simp
    · have hd' : Delimited (lead' ++ (body' ++ rest)) := by
        rw [← List.append_assoc]
        exact hd.append rest
      have hafter : Delimited (ws ++ (text ++ (lead' ++ (body' ++ rest)))) := by
        obtain ⟨w, ws, rfl⟩ := List.exists_cons_of_ne_nil hne
        exact not_inText_of_isWhitespace (hw w (by simp))
      have hbuf' : c.buf = lead ++ (name ++ (ws ++ (text ++ (lead' ++ (body' ++ rest))))) := by
        simp [hbuf]
      have hrest : (ws ++ (text ++ (lead' ++ (body' ++ rest)))).drop (ws.length + text.length) =
          lead' ++ (body' ++ rest) := by
        rw [← List.append_assoc, ← List.length_append, List.drop_left]
      simp only [List.length_append] at hb
      have hread : (decodeTy env ty (i :: path) (ws ++ (text ++ (lead' ++ (body' ++ rest))))).res =
          some (.read false (ws.length + text.length) v) :=
        decodeTy_written hwf.2.2.1 hw hv (by omega) hd'
      rw [decodeElements_present (by omega) hs hl hwf.1 hafter hbuf' hread,
        decodeElements_written hwf.2.2.2 hl' h rfl hrest (by omega)]
      simp only [List.length_append, List.append_assoc, List.singleton_append]
      congr 2
      omega

theorem decodeAlternative_written {env : Env} : ∀ {els : Elements}, els.WellNamed →
    ∀ {first : Option Text} {path : List ℕ} {i present : ℕ} {choice : Text} {v : Value}
    {c : Cursor} {ws text rest : Text}, WrittenAlternative els present choice v text →
    Blank ws → c.buf = ws ++ (text ++ rest) → text.length + 3 ≤ env.bound → Delimited rest →
    (decodeAlternative env els first path i choice c).res =
      some (.ok (c.consumed + ws.length + text.length) (.choice (i + present) v))
  | .cons name presence ty els, hwf, first, path, i, present, choice, v, c, ws, text, rest, h,
      hw, hbuf, hb, hr => by
    rcases h with ⟨rfl, rfl, hv⟩ | ⟨k, rfl, h⟩
    · rw [decodeAlternative, if_pos rfl, hbuf,
        bind_res (decodeTy_written hwf.2.2.1 hw hv hb hr)]
      simp [Nat.add_assoc]
    · have hne : choice ≠ name := by
        rintro rfl
        exact hwf.2.1 h.name_mem
      rw [decodeAlternative, if_neg hne, decodeAlternative_written hwf.2.2.2 h hw hbuf hb hr]
      congr 3
      omega
end

theorem gserDecode_written {env : Env} {els : Elements} {v : Value} {text : Text}
    (hty : (Ty.sequence els).WellFormed) (hW : Written (.sequence els) v text)
    (hb : text.length + 3 ≤ env.bound) :
    (gserDecode env (.sequence els) (text ++ [0])).res = some (.ok text.length v) := by
  have hspan : gserWhitespaceSpan (text ++ [0]) = 0 := by
    obtain ⟨vs, ws, body, -, -, -, rfl⟩ := hW
    rfl
  have hdec : (decodeTy env (.sequence els) [] (text ++ [0])).res = some (.ok text.length v) := by
    have hzero : Delimited [0] := show ¬ InText 0 by decide
    have hblank : Blank [] := by decide
    simpa using decodeTy_written hty hblank hW hb hzero
  unfold gserDecode
  simp only [hspan, List.drop_zero]
  rw [Logged.bind_res hdec]
  simp

end EnbL1Ppc.Gser
