import Snuffleupagus.Config.Root

/-! # What a parser moves

For any relation `R` between the configuration before a parser and after it: the parser of a feature
moves the configuration in the way `R` if its own setters do. One lemma for each parser, and
`moves_spProcessConfigRoot` for all of them. With a property that is kept by success only, the parsers
that test it at their end are looked at on their own (`Keeps`). -/

namespace Snuffleupagus.Config.Frame

open Snuffleupagus.Lib.Attempts Snuffleupagus.Lib.Table Snuffleupagus.Php.Bytes
open Snuffleupagus.Php.Engine Snuffleupagus.Config.Rule
open Snuffleupagus.Config.Keyword hiding spProcessRule
open Snuffleupagus.Config.Parser Snuffleupagus.Config.Features Snuffleupagus.Config.Root
open Snuffleupagus.Hook.Stores

/-! ### Tables of parsers -/

section Tables
variable {σ ℓ : Type} {R : σ → σ → Prop} {k : ZendString} {f : SpParser σ} {l l' : SpConfigKeywords σ}

theorem parsers_nil : Parsers R [] := fun _ h => by cases h

theorem parsers_cons (hf : ∀ token kw rule, Moves R (f token kw rule)) (hl : Parsers R l) :
    Parsers R ((k, f) :: l) := List.forall_mem_cons.mpr ⟨hf, hl⟩

theorem parsers_append (h : Parsers R l) (h' : Parsers R l') : Parsers R (l ++ l') :=
  fun ckw hc => (List.mem_append.mp hc).elim (h ckw) (h' ckw)

theorem moves_parseEmpty (hr : ∀ s, R s s) {set : σ → σ} (hs : ∀ s, R s (set s)) (token : ZendString)
    (kw : SpParsedKeyword) (rule : List SpParsedKeyword) : Moves R (leaf (parseEmpty set) token kw rule) := by
  refine moves_leaf hr (fun token kw s p h => ?_) token kw rule
  unfold parseEmpty at h
  split_ifs at h
  cases h
  exact hs s

theorem moves_parseStr (hr : ∀ s, R s s) {get : σ → Option ZendString} {set : ZendString → σ → σ}
    (hs : ∀ v s, R s (set v s)) (token : ZendString) (kw : SpParsedKeyword)
    (rule : List SpParsedKeyword) : Moves R (leaf (parseStr get set) token kw rule) := by
  refine moves_leaf hr (fun token kw s p h => ?_) token kw rule
  unfold parseStr at h
  obtain ⟨u, -, h⟩ := Lib.Effect.bind_eq_ok.mp h
  obtain ⟨v, -, h⟩ := Lib.Effect.bind_eq_ok.mp h
  cases h
  exact hs v s

theorem moves_parseList (hr : ∀ s, R s s) {get : σ → List ZendString} {set : List ZendString → σ → σ}
    (hs : ∀ v s, R s (set v s)) (token : ZendString) (kw : SpParsedKeyword)
    (rule : List SpParsedKeyword) : Moves R (leaf (parseList get set) token kw rule) := by
  refine moves_leaf hr (fun token kw s p h => ?_) token kw rule
  unfold parseList at h
  obtain ⟨u, -, h⟩ := Lib.Effect.bind_eq_ok.mp h
  obtain ⟨v, -, h⟩ := Lib.Effect.bind_eq_ok.mp h
  cases h
  exact hs _ s

theorem moves_parseNumber (hr : ∀ s, R s s) (ht : ∀ s₁ s₂ s₃, R s₁ s₂ → R s₂ s₃ → R s₁ s₃)
    {set : ℕ → σ → σ} (hs : ∀ n s, R s (set n s)) (token : ZendString) (kw : SpParsedKeyword)
    (rule : List SpParsedKeyword) : Moves R (parseNumber set token kw rule) := by
  unfold parseNumber
  refine Moves.bind ht (Moves.ofAnswer hr _) fun value => ?_
  cases strtoul (cstr value) with
  | none => exact Moves.bind ht (Moves.modify (hs 0)) fun _ => Moves.throw hr _
  | some p =>
    refine Moves.bind ht (Moves.modify (hs p.1)) fun _ => ?_
    cases p.2
    · exact Moves.pure hr _
    · exact Moves.throw hr _

/-- A parser of local variables moves nothing else. -/
theorem moves_onLocals {R : SpGlobals → SpGlobals → Prop} (hr : ∀ g, R g g) (f : SpParseFn ℓ)
    (token : ZendString) (kw : SpParsedKeyword) (rule : List SpParsedKeyword) :
    Moves (fun p q : ℓ × SpGlobals => R p.2 q.2) (onLocals f token kw rule) := by
  refine moves_leaf (fun p => hr p.2) (fun token kw s p h => ?_) token kw rule
  cases hf : f token kw s.1 with
  | error e => rw [hf] at h; cases h
  | ok q => rw [hf] at h; cases h; exact hr s.2

theorem parsers_onLocals {R : SpGlobals → SpGlobals → Prop} (hr : ∀ g, R g g)
    (l : List (ZendString × SpParseFn ℓ)) :
    Parsers (fun p q : ℓ × SpGlobals => R p.2 q.2) (l.map (Prod.map id onLocals)) := by
  intro ckw hc token kw rule
  obtain ⟨e, -, rfl⟩ := List.mem_map.mp hc
  exact moves_onLocals hr e.2 token kw rule

theorem moves_onGlobals {R : SpGlobals → SpGlobals → Prop} {f : SpParser SpGlobals}
    (hf : ∀ token kw rule, Moves R (f token kw rule)) (token : ZendString) (kw : SpParsedKeyword)
    (rule : List SpParsedKeyword) :
    Moves (fun p q : ℓ × SpGlobals => R p.2 q.2) (onGlobals f token kw rule) :=
  fun s => hf token kw rule s.2

end Tables

/-! ### The parsers -/

section Parsers
variable {R : SpGlobals → SpGlobals → Prop} (hr : ∀ g, R g g)
  (ht : ∀ g₁ g₂ g₃, R g₁ g₂ → R g₂ g₃ → R g₁ g₃) (hline : ∀ n g, R g (atLine n g))
include hr ht hline

theorem moves_spProcessConfigKeywords {ℓ : Type} {kws : SpConfigKeywords (ℓ × SpGlobals)}
    (hp : Parsers (fun p q : ℓ × SpGlobals => R p.2 q.2) kws) (parsedRule : SpParsedKeyword)
    (rule : List SpParsedKeyword) (l : ℓ) :
    Moves R (spProcessConfigKeywords parsedRule rule l kws) := by
  unfold spProcessConfigKeywords
  refine Moves.bind ht (Moves.withLocals ?_) fun p => ?_
  · exact moves_spProcessRule (R := fun p q : ℓ × SpGlobals => R p.2 q.2) (fun p => hr p.2)
      (fun p₁ p₂ p₃ => ht p₁.2 p₂.2 p₃.2) (fun n p => hline n p.2) hp rule
  · exact Moves.bind ht (Moves.modify (hline _)) fun _ => Moves.pure hr _

omit ht hline in
theorem parsers_enableDisable : Parsers (fun p q : Flags × SpGlobals => R p.2 q.2) enableDisable :=
  parsers_cons (moves_parseEmpty (fun p => hr p.2) fun p => hr p.2) <|
    parsers_cons (moves_parseEmpty (fun p => hr p.2) fun p => hr p.2) parsers_nil

omit ht hline in
theorem moves_spSetEnableDisable {set : Bool → SpGlobals → SpGlobals} (hs : ∀ b g, R g (set b g))
    (parsedRule : SpParsedKeyword) (f : Flags) : Moves R (spSetEnableDisable parsedRule f set) := by
  unfold spSetEnableDisable
  split_ifs
  · exact Moves.throw hr _
  · exact Moves.modify (hs _)
  · exact Moves.pure hr _

theorem moves_parseEnable {set : Bool → SpGlobals → SpGlobals} (hs : ∀ b g, R g (set b g))
    (token : ZendString) (kw : SpParsedKeyword) (rule : List SpParsedKeyword) :
    Moves R (parseEnable set token kw rule) := by
  unfold parseEnable
  refine Moves.bind ht (moves_spProcessConfigKeywords hr ht hline (parsers_enableDisable hr) kw rule _)
    fun f => ?_
  exact Moves.bind ht (moves_spSetEnableDisable hr hs kw f) fun _ => Moves.pure hr _

omit ht hline in
theorem moves_refuse {α : Type} (fmt : String) (args : List ZendString) :
    Moves R (refuse fmt args : Attempt ConfigError SpGlobals α) := Moves.throw hr _

omit hline in
/-- The keywords of `parse_session`, before the test of the key. -/
theorem parsers_sessionKeywords (hs : ∀ f g, R g (onSession f g)) :
    Parsers (fun p q : Unit × SpGlobals => R p.2 q.2) sessionKeywords := by
  have hset : ∀ f, ∀ p : Unit × SpGlobals, R p.2 (toGlobals (onSession f) p).2 := fun f p => hs f p.2
  have ht' : ∀ p₁ p₂ p₃ : Unit × SpGlobals, R p₁.2 p₂.2 → R p₂.2 p₃.2 → R p₁.2 p₃.2 :=
    fun _ _ _ => ht _ _ _
  exact parsers_cons (moves_parseEmpty (fun p => hr p.2) (hset _)) <|
    parsers_cons (moves_parseEmpty (fun p => hr p.2) (hset _)) <|
    parsers_cons (moves_parseEmpty (fun p => hr p.2) (hset _)) <|
    parsers_cons (moves_parseNumber (fun p => hr p.2) ht' fun _ => hset _) <|
    parsers_cons (moves_parseNumber (fun p => hr p.2) ht' fun _ => hset _) parsers_nil

theorem moves_parseSession (hs : ∀ f g, R g (onSession f g)) (token : ZendString) (kw : SpParsedKeyword)
    (rule : List SpParsedKeyword) : Moves R (parseSession token kw rule) := by
  unfold parseSession
  refine Moves.bind ht (moves_spProcessConfigKeywords hr ht hline
    (parsers_sessionKeywords hr ht hs) kw rule ()) fun _ => Moves.bind ht (Moves.get hr) fun g => ?_
  split_ifs
  · exact moves_refuse hr _ _
  · exact moves_refuse hr _ _
  · exact Moves.pure hr _

omit hline in
theorem moves_parseLogMedia (hs : ∀ v g, R g { g with logMedia := v }) (token : ZendString)
    (kw : SpParsedKeyword) (rule : List SpParsedKeyword) : Moves R (parseLogMedia token kw rule) := by
  have hset : ∀ f : SpGlobals → SpConfigLog,
      Moves R (modify (fun g => { g with logMedia := f g }) : Attempt ConfigError SpGlobals Unit) :=
    fun f => Moves.modify fun g => hs (f g) g
  unfold parseLogMedia
  refine Moves.bind ht (hset _) fun _ => Moves.bind ht (Moves.ofAnswer hr _) fun value => ?_
  split_ifs
  · exact Moves.bind ht (hset _) fun _ => Moves.pure hr _
  · exact Moves.bind ht (hset _) fun _ => Moves.pure hr _
  · exact Moves.bind ht (hset _) fun _ => Moves.pure hr _
  · exact moves_refuse hr _ _

theorem moves_parseUnserializeNoclass (hs : ∀ v g, R g { g with unserializeNoclass := v })
    (token : ZendString) (kw : SpParsedKeyword) (rule : List SpParsedKeyword) :
    Moves R (parseUnserializeNoclass token kw rule) := by
  unfold parseUnserializeNoclass
  refine Moves.bind ht (moves_spProcessConfigKeywords hr ht hline (parsers_enableDisable hr) kw rule _)
    fun f => ?_
  refine Moves.bind ht (moves_spSetEnableDisable hr (fun _ g => hs _ g) kw f) fun _ => ?_
  exact Moves.bind ht (Moves.modify fun g => hs _ g) fun _ => Moves.pure hr _

theorem moves_parseUnserialize (hs : ∀ f g, R g (onUnserialize f g)) (token : ZendString)
    (kw : SpParsedKeyword) (rule : List SpParsedKeyword) : Moves R (parseUnserialize token kw rule) := by
  have hset : ∀ f, ∀ p : Flags × SpGlobals, R p.2 (toGlobals (onUnserialize f) p).2 := fun f p => hs f p.2
  have hkws : Parsers (fun p q : Flags × SpGlobals => R p.2 q.2) unserializeKeywords :=
    parsers_append (parsers_enableDisable hr) <|
    parsers_cons (moves_parseEmpty (fun p => hr p.2) (hset _)) <|
    parsers_cons (moves_parseEmpty (fun p => hr p.2) (hset _)) <|
    parsers_cons (moves_parseStr (fun p => hr p.2) fun _ => hset _) parsers_nil
  unfold parseUnserialize
  refine Moves.bind ht (moves_spProcessConfigKeywords hr ht hline hkws kw rule _) fun f => ?_
  refine Moves.bind ht (moves_spSetEnableDisable hr (fun _ => hs _) kw f) fun _ => ?_
  exact Moves.bind ht (Moves.modify (hs _)) fun _ => Moves.pure hr _

theorem moves_parseReadonlyExec (hs : ∀ f g, R g (onReadonlyExec f g)) (token : ZendString)
    (kw : SpParsedKeyword) (rule : List SpParsedKeyword) : Moves R (parseReadonlyExec token kw rule) := by
  have hset : ∀ f, ∀ p : Flags × SpGlobals, R p.2 (toGlobals (onReadonlyExec f) p).2 :=
    fun f p => hs f p.2
  have hlocal : ∀ f, ∀ p : Flags × SpGlobals, R p.2 (toLocals f p).2 := fun _ p => hr p.2
  have hkws : Parsers (fun p q : Flags × SpGlobals => R p.2 q.2) readonlyExecKeywords :=
    parsers_append (parsers_enableDisable hr) <|
    parsers_cons (moves_parseEmpty (fun p => hr p.2) (hset _)) <|
    parsers_cons (moves_parseEmpty (fun p => hr p.2) (hset _)) <|
    parsers_cons (moves_parseStr (fun p => hr p.2) fun _ => hset _) <|
    parsers_cons (moves_parseEmpty (fun p => hr p.2) (hlocal _)) <|
    parsers_cons (moves_parseEmpty (fun p => hr p.2) (hlocal _)) <|
    parsers_cons (moves_parseEmpty (fun p => hr p.2) (hlocal _)) <|
    parsers_cons (moves_parseEmpty (fun p => hr p.2) (hlocal _)) parsers_nil
  unfold parseReadonlyExec
  refine Moves.bind ht (moves_spProcessConfigKeywords hr ht hline hkws kw rule _) fun f => ?_
  refine Moves.bind ht (Moves.modify (hs _)) fun _ => ?_
  refine Moves.bind ht (moves_spSetEnableDisable hr (fun _ => hs _) kw f) fun _ => ?_
  exact Moves.bind ht (Moves.modify (hs _)) fun _ => Moves.pure hr _

/-- The global options. -/
structure GlobalSetters (R : SpGlobals → SpGlobals → Prop) : Prop where
  encryptionKey : ∀ v g, R g { g with encryptionKey := some v }
  cookiesEnvVar : ∀ v g, R g { g with cookiesEnvVar := some v }
  logMedia : ∀ v g, R g { g with logMedia := v }
  logMaxLen : ∀ v g, R g { g with logMaxLen := v }
  maxExecutionDepth : ∀ v g, R g { g with maxExecutionDepth := v }
  serverEncode : ∀ v g, R g { g with serverEncode := v }
  serverStrip : ∀ v g, R g { g with serverStrip := v }

theorem moves_parseGlobal (hs : GlobalSetters R) (token : ZendString) (kw : SpParsedKeyword)
    (rule : List SpParsedKeyword) : Moves R (parseGlobal token kw rule) := by
  have ht' : ∀ p₁ p₂ p₃ : Unit × SpGlobals, R p₁.2 p₂.2 → R p₂.2 p₃.2 → R p₁.2 p₃.2 :=
    fun _ _ _ => ht _ _ _
  have hkws : Parsers (fun p q : Unit × SpGlobals => R p.2 q.2) globalKeywords :=
    parsers_cons (moves_parseStr (fun p => hr p.2) fun v p => hs.encryptionKey v p.2) <|
    parsers_cons (moves_parseStr (fun p => hr p.2) fun v p => hs.cookiesEnvVar v p.2) <|
    parsers_cons (moves_onGlobals (moves_parseLogMedia hr ht hs.logMedia)) <|
    parsers_cons (moves_parseNumber (fun p => hr p.2) ht' fun _ p => hs.logMaxLen _ p.2) <|
    parsers_cons (moves_parseNumber (fun p => hr p.2) ht' fun _ p => hs.maxExecutionDepth _ p.2) <|
    parsers_cons (moves_onGlobals (moves_parseEnable hr ht hline hs.serverEncode)) <|
    parsers_cons (moves_onGlobals (moves_parseEnable hr ht hline hs.serverStrip)) parsers_nil
  unfold parseGlobal
  refine Moves.bind ht (moves_spProcessConfigKeywords hr ht hline hkws kw rule ()) fun _ => ?_
  refine Moves.bind ht (Moves.get hr) fun g => ?_
  cases g.encryptionKey with
  | none => exact Moves.pure hr _
  | some key =>
    dsimp only
    split_ifs
    · exact moves_refuse hr _ _
    · exact moves_refuse hr _ _
    · exact Moves.pure hr _

theorem moves_parseEvalFilterConf (hs : ∀ f g, R g (onEval f g)) {list : SpConfigEval → List ZendString}
    {setList : List ZendString → SpConfigEval → SpConfigEval} (token : ZendString)
    (kw : SpParsedKeyword) (rule : List SpParsedKeyword) :
    Moves R (parseEvalFilterConf list setList token kw rule) := by
  have hset : ∀ f, ∀ p : Unit × SpGlobals, R p.2 (toGlobals (onEval f) p).2 := fun f p => hs f p.2
  have hkws : Parsers (fun p q : Unit × SpGlobals => R p.2 q.2) (evalKeywords list setList) :=
    parsers_cons (moves_parseList (fun p => hr p.2) fun _ => hset _) <|
    parsers_cons (moves_parseEmpty (fun p => hr p.2) (hset _)) <|
    parsers_cons (moves_parseEmpty (fun p => hr p.2) (hset _)) <|
    parsers_cons (moves_parseStr (fun p => hr p.2) fun _ => hset _) parsers_nil
  unfold parseEvalFilterConf
  refine Moves.bind ht (moves_spProcessConfigKeywords hr ht hline hkws kw rule ()) fun _ => ?_
  exact Moves.bind ht (Moves.modify (hs _)) fun _ => Moves.pure hr _

omit ht hline in
/-- The keywords of `parse_wrapper_whitelist`, before the feature is on. -/
theorem parsers_wrapperKeywords
    (hs : ∀ f : SpConfigWrapper → SpConfigWrapper, (∀ c, (f c).numWrapper = c.numWrapper) →
      ∀ g, R g (onWrapper f g)) :
    Parsers (fun p q : Unit × SpGlobals => R p.2 q.2) wrapperKeywords :=
  parsers_cons (moves_parseList (fun p => hr p.2) fun v p =>
      hs (fun c => { c with whitelist := v }) (fun _ => rfl) p.2) <|
    parsers_cons (moves_parseList (fun p => hr p.2) fun v p =>
      hs (fun c => { c with phpStreamAllowlist := v }) (fun _ => rfl) p.2) parsers_nil

theorem moves_parseWrapperWhitelist
    (hs : ∀ f : SpConfigWrapper → SpConfigWrapper, (∀ c, (f c).numWrapper = c.numWrapper) →
      ∀ g, R g (onWrapper f g)) (token : ZendString)
    (kw : SpParsedKeyword) (rule : List SpParsedKeyword) :
    Moves R (parseWrapperWhitelist token kw rule) := by
  unfold parseWrapperWhitelist
  refine Moves.bind ht (moves_spProcessConfigKeywords hr ht hline
    (parsers_wrapperKeywords hr hs) kw rule ()) fun _ => ?_
  exact Moves.bind ht (Moves.modify (hs (fun c => { c with enabled := true }) fun _ => rfl)) fun _ => Moves.pure hr _

omit ht hline in
theorem moves_checkCookie (g : SpGlobals) (kw : SpParsedKeyword) (s : CookieState) :
    Moves R (checkCookie g kw s) := by
  unfold checkCookie
  dsimp only
  split_ifs
  all_goals first | exact moves_refuse hr _ _ | exact Moves.pure hr _

omit ht hline in
theorem moves_parseSamesite (kw : SpParsedKeyword) (v : Option ZendString) :
    Moves R (parseSamesite kw v) := by
  unfold parseSamesite
  cases v with
  | none => exact Moves.pure hr _
  | some v =>
    dsimp only
    split_ifs
    · exact Moves.pure hr _
    · exact Moves.pure hr _
    · exact moves_refuse hr _ _

theorem moves_parseCookie (w : World) (hs : ∀ v g, R g { g with cookies := v }) (token : ZendString)
    (kw : SpParsedKeyword) (rule : List SpParsedKeyword) : Moves R (parseCookie w token kw rule) := by
  unfold parseCookie
  refine Moves.bind ht (moves_spProcessConfigKeywords hr ht hline (parsers_onLocals hr _) kw rule _)
    fun s => ?_
  refine Moves.bind ht (Moves.get hr) fun g => ?_
  refine Moves.bind ht (moves_checkCookie hr g kw s) fun _ => ?_
  refine Moves.bind ht (moves_parseSamesite hr kw _) fun v => ?_
  exact Moves.bind ht (Moves.modify fun g => hs _ g) fun _ => Moves.pure hr _

theorem moves_parseDisabledFunctions (w : World)
    (hs : ∀ df g, R g { g with stores := insertRule g.stores df }) (token : ZendString)
    (kw : SpParsedKeyword) (rule : List SpParsedKeyword) :
    Moves R (parseDisabledFunctions w token kw rule) := by
  unfold parseDisabledFunctions
  refine Moves.bind ht (moves_spProcessConfigKeywords hr ht hline (parsers_onLocals hr _) kw rule _)
    fun _ => ?_
  refine Moves.bind ht (Moves.ofAnswer hr _) fun df => ?_
  cases df with
  | none => exact Moves.pure hr _
  | some df => exact Moves.bind ht (Moves.modify fun g => hs _ g) fun _ => Moves.pure hr _

theorem moves_parseUploadValidation (access : ZendString → Bool) (hs : ∀ f g, R g (onUpload f g))
    (token : ZendString) (kw : SpParsedKeyword) (rule : List SpParsedKeyword) :
    Moves R (parseUploadValidation access token kw rule) := by
  have hset : ∀ f, ∀ p : Flags × SpGlobals, R p.2 (toGlobals (onUpload f) p).2 := fun f p => hs f p.2
  have hkws : Parsers (fun p q : Flags × SpGlobals => R p.2 q.2) uploadKeywords :=
    parsers_append (parsers_enableDisable hr) <|
    parsers_cons (moves_parseStr (fun p => hr p.2) fun _ => hset _) <|
    parsers_cons (moves_parseEmpty (fun p => hr p.2) (hset _)) <|
    parsers_cons (moves_parseEmpty (fun p => hr p.2) (hset _)) parsers_nil
  unfold parseUploadValidation
  refine Moves.bind ht (moves_spProcessConfigKeywords hr ht hline hkws kw rule _) fun f => ?_
  refine Moves.bind ht (moves_spSetEnableDisable hr (fun _ => hs _) kw f) fun _ => ?_
  refine Moves.bind ht (Moves.get hr) fun g => ?_
  cases g.uploadValidation.script with
  | none => exact moves_refuse hr _ _
  | some script =>
    dsimp only
    split_ifs
    · exact Moves.pure hr _
    · exact moves_refuse hr _ _

theorem moves_parseIniProtection
    (hs : ∀ f, (∀ c, (f c).entries = c.entries) → ∀ g, R g (onIni f g)) (token : ZendString)
    (kw : SpParsedKeyword) (rule : List SpParsedKeyword) : Moves R (parseIniProtection token kw rule) := by
  have hset : ∀ f, (∀ c, (f c).entries = c.entries) →
      ∀ p : Flags × SpGlobals, R p.2 (toGlobals (onIni f) p).2 := fun f hf p => hs f hf p.2
  have hlocal : ∀ f, ∀ p : Flags × SpGlobals, R p.2 (toLocals f p).2 := fun _ p => hr p.2
  have hkws : Parsers (fun p q : Flags × SpGlobals => R p.2 q.2) iniKeywords :=
    parsers_append (parsers_enableDisable hr) <|
    parsers_cons (moves_parseEmpty (fun p => hr p.2) (hset _ fun _ => rfl)) <|
    parsers_cons (moves_parseEmpty (fun p => hr p.2) (hset _ fun _ => rfl)) <|
    parsers_cons (moves_parseEmpty (fun p => hr p.2) (hlocal _)) <|
    parsers_cons (moves_parseEmpty (fun p => hr p.2) (hlocal _)) <|
    parsers_cons (moves_parseEmpty (fun p => hr p.2) (hlocal _)) <|
    parsers_cons (moves_parseEmpty (fun p => hr p.2) (hlocal _)) <|
    parsers_cons (moves_parseEmpty (fun p => hr p.2) (hset _ fun _ => rfl)) <|
    parsers_cons (moves_parseEmpty (fun p => hr p.2) (hset _ fun _ => rfl)) <|
    parsers_cons (moves_parseEmpty (fun p => hr p.2) (hset _ fun _ => rfl)) <|
    parsers_cons (moves_parseEmpty (fun p => hr p.2) (hset _ fun _ => rfl)) parsers_nil
  unfold parseIniProtection
  refine Moves.bind ht (moves_spProcessConfigKeywords hr ht hline hkws kw rule _) fun f => ?_
  refine Moves.bind ht (moves_spSetEnableDisable hr (fun b => hs _ ?_) kw f) fun _ => ?_
  · exact fun _ => rfl
  split_ifs
  · exact moves_refuse hr _ _
  · refine Moves.bind ht (Moves.modify (hs _ ?_)) fun _ => Moves.bind ht (Moves.get hr) fun g => ?_
    · exact fun _ => rfl
    split_ifs
    · exact moves_refuse hr _ _
    · exact Moves.pure hr _

theorem moves_parseIniEntry (w : World)
    (hs : ∀ k e g, e.key = k → R g (onIni (fun c => { c with entries := c.entries.insert k e }) g))
    (token : ZendString) (kw : SpParsedKeyword) (rule : List SpParsedKeyword) :
    Moves R (parseIniEntry w token kw rule) := by
  unfold parseIniEntry
  refine Moves.bind ht (moves_spProcessConfigKeywords hr ht hline (parsers_onLocals hr _) kw rule _)
    fun s => ?_
  refine Moves.bind ht (Moves.get hr) fun g => ?_
  cases s.key with
  | none => exact moves_refuse hr _ _
  | some key =>
    dsimp only
    split_ifs
    · exact moves_refuse hr _ _
    · exact moves_refuse hr _ _
    · exact Moves.bind ht (Moves.modify fun g => hs key _ g rfl) fun _ => Moves.pure hr _

/-! ### The table of all parsers -/

/-- The setters of the parsers that have no test of what they have set. -/
structure PlainSetters (R : SpGlobals → SpGlobals → Prop) : Prop extends GlobalSetters R where
  random : ∀ b g, R g { g with random := b }
  globalStrict : ∀ b g, R g { g with globalStrict := b }
  autoCookieSecure : ∀ b g, R g { g with autoCookieSecure := b }
  xxeProtection : ∀ b g, R g { g with xxeProtection := b }
  sloppy : ∀ b g, R g { g with sloppy := b }
  unserialize : ∀ f g, R g (onUnserialize f g)
  unserializeNoclass : ∀ v g, R g { g with unserializeNoclass := v }
  readonlyExec : ∀ f g, R g (onReadonlyExec f g)
  eval : ∀ f g, R g (onEval f g)
  upload : ∀ f g, R g (onUpload f g)
  stores : ∀ df g, R g { g with stores := insertRule g.stores df }
  ini : ∀ f, (∀ c, (f c).entries = c.entries) → ∀ g, R g (onIni f g)
  iniEntry : ∀ k e g, e.key = k → R g (onIni (fun c => { c with entries := c.entries.insert k e }) g)

/-- **All parsers but three** move the configuration in the way their setters do. -/
theorem rootKeywords_cases (w : World) (access : ZendString → Bool) (hs : PlainSetters R)
    {ckw : ZendString × SpParser SpGlobals} (hmem : ckw ∈ rootKeywords w access) :
    ckw.2 = parseSession ∨ ckw.2 = parseWrapperWhitelist ∨ ckw.2 = parseCookie w ∨
      ∀ token kw rule, Moves R (ckw.2 token kw rule) := by
  have hplain : ∀ f : SpParser SpGlobals, (∀ token kw rule, Moves R (f token kw rule)) →
      ∀ k : ZendString, ckw = (k, f) → ckw.2 = parseSession ∨ ckw.2 = parseWrapperWhitelist ∨
        ckw.2 = parseCookie w ∨ ∀ token kw rule, Moves R (ckw.2 token kw rule) := by
    rintro f hf k rfl
    exact Or.inr (Or.inr (Or.inr hf))
  simp only [rootKeywords, List.mem_cons, List.not_mem_nil, or_false] at hmem
  rcases hmem with h | h | h | h | h | h | h | h | h | h | h | h | h | h | h | h | h | h | h | h
  · exact hplain _ (moves_parseUnserialize hr ht hline hs.unserialize) _ h
  · exact hplain _ (moves_parseUnserializeNoclass hr ht hline hs.unserializeNoclass) _ h
  · exact hplain _ (moves_parseEnable hr ht hline hs.random) _ h
  · exact hplain _ (moves_parseLogMedia hr ht hs.logMedia) _ h
  · exact hplain _ (moves_parseNumber hr ht fun _ => hs.logMaxLen _) _ h
  · exact hplain _ (moves_parseDisabledFunctions hr ht hline w hs.stores) _ h
  · exact hplain _ (moves_parseReadonlyExec hr ht hline hs.readonlyExec) _ h
  · exact hplain _ (moves_parseEnable hr ht hline hs.globalStrict) _ h
  · exact hplain _ (moves_parseUploadValidation hr ht hline access hs.upload) _ h
  · exact Or.inr (Or.inr (Or.inl (by rw [h])))
  · exact hplain _ (moves_parseGlobal hr ht hline hs.toGlobalSetters) _ h
  · exact hplain _ (moves_parseEnable hr ht hline hs.autoCookieSecure) _ h
  · exact hplain _ (moves_parseEnable hr ht hline hs.xxeProtection) _ h
  · exact hplain _ (moves_parseEvalFilterConf hr ht hline hs.eval) _ h
  · exact hplain _ (moves_parseEvalFilterConf hr ht hline hs.eval) _ h
  · exact Or.inl (by rw [h])
  · exact hplain _ (moves_parseEnable hr ht hline hs.sloppy) _ h
  · exact Or.inr (Or.inl (by rw [h]))
  · exact hplain _ (moves_parseIniProtection hr ht hline hs.ini) _ h
  · exact hplain _ (moves_parseIniEntry hr ht hline w hs.iniEntry) _ h

/-- All setters. -/
structure Setters (R : SpGlobals → SpGlobals → Prop) : Prop extends PlainSetters R where
  session : ∀ f g, R g (onSession f g)
  wrapper : ∀ f : SpConfigWrapper → SpConfigWrapper, (∀ c, (f c).numWrapper = c.numWrapper) →
    ∀ g, R g (onWrapper f g)
  cookies : ∀ v g, R g { g with cookies := v }

/-- **A rule moves the configuration in the way all setters do**, also if it is refused. -/
theorem moves_spProcessConfigRoot (w : World) (access : ZendString → Bool) (hs : Setters R)
    (rule : List SpParsedKeyword) : Moves R (spProcessConfigRoot w access rule) := by
  refine moves_spProcessRule hr ht hline (fun ckw hmem => ?_) rule
  rcases rootKeywords_cases hr ht hline w access hs.toPlainSetters hmem with h | h | h | h
  · exact h ▸ moves_parseSession hr ht hline hs.session
  · exact h ▸ moves_parseWrapperWhitelist hr ht hline hs.wrapper
  · exact h ▸ moves_parseCookie hr ht hline w hs.cookies
  · exact h

end Parsers

/-! ### What success keeps -/

/-- A property the computation keeps if it succeeds. -/
def Keeps {σ α : Type} (I : σ → Prop) (x : Attempt ConfigError σ α) : Prop :=
  ∀ s a s', Leaves x s a s' → I s → I s'

/-- A property that is kept, also by failure. -/
abbrev Kept (I : SpGlobals → Prop) (g g' : SpGlobals) : Prop := I g → I g'

section Keeps
variable {I : SpGlobals → Prop}

theorem kept_refl (g : SpGlobals) : Kept I g g := fun h => h

theorem kept_trans (g₁ g₂ g₃ : SpGlobals) (h : Kept I g₁ g₂) (h' : Kept I g₂ g₃) : Kept I g₁ g₃ :=
  fun hI => h' (h hI)

theorem keeps_of_moves {α : Type} {x : Attempt ConfigError SpGlobals α} (h : Moves (Kept I) x) :
    Keeps I x := fun _ _ _ hl => h.leaves hl

theorem keeps_spProcessRule (hline : ∀ n g, I g → I (atLine n g)) {kws : SpConfigKeywords SpGlobals}
    (hp : ∀ ckw ∈ kws, ∀ token kw rule, Keeps I (ckw.2 token kw rule)) :
    ∀ rule, Keeps I (spProcessRule atLine kws rule)
  | [], g, _, g', hl, hI => by
    obtain ⟨-, rfl⟩ := leaves_pure.mp hl
    exact hI
  | kw :: rule, g, _, g', hl, hI => by
    unfold spProcessRule at hl
    obtain ⟨_, g₁, h₁, hl⟩ := leaves_bind.mp hl
    have h₁ := leaves_modify.mp h₁
    subst h₁
    cases hf : kws.find? fun ckw => ckw.1 == kw.kw with
    | none =>
      rw [hf] at hl
      exact absurd hl not_leaves_throw
    | some ckw =>
      obtain ⟨token, func⟩ := ckw
      rw [hf] at hl
      obtain ⟨r, g₂, h₂, hl⟩ := leaves_bind.mp hl
      have hI₂ := hp _ (List.mem_of_find?_eq_some hf) _ _ _ _ _ _ h₂ (hline _ _ hI)
      cases r with
      | stop =>
        obtain ⟨-, rfl⟩ := leaves_pure.mp hl
        exact hI₂
      | success => exact keeps_spProcessRule hline hp rule _ _ _ hl hI₂

end Keeps

end Snuffleupagus.Config.Frame
