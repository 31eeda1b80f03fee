import Snuffleupagus.Lib.Effect
import Snuffleupagus.Php.Value

/-! # The array functions, with strict comparison

`sp_in_array`, `sp_array_search` and `sp_array_keys` parse their arguments, and call the function they stand for with the
first two of them and `true`. All three are `array_handler`, which does not look at what the parser says: it goes on with
the variables as they are. Where the number of arguments is wrong, `value` has never been written.

PHP's functions are taken with the parameters they are documented to have; what they do with accepted arguments is a
parameter. `array_handler_iff` says on which argument lists the handlers do what PHP's functions do when strict
comparison is forced on. -/

namespace Snuffleupagus.Sloppy.ArrayHandler

open Snuffleupagus.Lib.Effect Snuffleupagus.Php.Bytes Snuffleupagus.Php.Value

/-! ### PHP's parser of arguments -/

/-- The types of parameters. -/
inductive ParamType
  | mixed | array | bool
  deriving DecidableEq

/-- What is wrong with an argument list. -/
inductive Complaint
  | count (least most given : ℕ)
  | type (arg : ℕ) (expected : ParamType)

/-- What PHP reports and goes on. -/
inductive Report
  | warning (c : Complaint)
  | nullDeprecated (arg : ℕ)

/-- Why a call does not return: an exception, of the parser or of the function, or the read of a variable that has
never been written. -/
inductive Fault
  | argumentError (c : Complaint)
  | exception (id : ℕ)
  | uninitialized

/-- A call of a PHP function. -/
abbrev Call := Run Fault Report

/-- The least number of arguments, and the parameters. -/
structure Signature where
  least : ℕ
  params : List ParamType
  deriving DecidableEq

/-- The letters of `zend_parse_parameters`; those behind the bar are optional. -/
def Signature.ofSpec (spec : String) : Signature where
  least := (spec.toList.takeWhile (· ≠ '|')).length
  params := spec.toList.filterMap fun c =>
    if c = 'z' then some .mixed else if c = 'a' then some .array else if c = 'b' then some .bool else none

/-- What a value is as a `bool`. -/
inductive BoolArg
  | taken | deprecated | rejected
  deriving DecidableEq

/-- `ZVAL_DEREF`. -/
def deref : Zval → Zval
  | .reference v => deref v
  | v => v

/-- `Z_TYPE_P(v) == IS_ARRAY`, behind references. -/
def isArray (v : Zval) : Bool :=
  match deref v with
  | .array _ => true
  | _ => false

/-- `zend_is_true`, on scalars. -/
def zendIsTrue : Zval → Bool
  | .true => true
  | .long n => n ≠ 0
  | .double bits => bits ≠ 0 && bits ≠ 0x8000000000000000
  | .string s => s ≠ [] && s ≠ [48]
  | _ => false

/-- The environment of a call: `PHP_VERSION_ID`, and whether the code that calls declares strict types. -/
structure Caller where
  phpVersionId : ℕ
  strictTypes : Bool

/-- An error of the parser is an exception, not a warning. -/
def Caller.throws (k : Caller) : Bool := decide (80000 ≤ k.phpVersionId) || k.strictTypes

/-- `zend_parse_arg_bool`. -/
def boolArg (k : Caller) (v : Zval) : BoolArg :=
  match deref v with
  | .true => .taken
  | .false => .taken
  | .null => if k.strictTypes then .rejected else if 80100 ≤ k.phpVersionId then .deprecated else .taken
  | .undef => if k.strictTypes then .rejected else .taken
  | .long _ => if k.strictTypes then .rejected else .taken
  | .double _ => if k.strictTypes then .rejected else .taken
  | .string _ => if k.strictTypes then .rejected else .taken
  | _ => .rejected

/-- What is stored for an argument, if it is accepted. -/
def zendParseArg (k : Caller) (arg : ℕ) (t : ParamType) (v : Zval) : Call (Option Zval) :=
  match t with
  | .mixed => pure (some v)
  | .array => pure (if isArray v then some (deref v) else none)
  | .bool =>
    let b := if zendIsTrue (deref v) then Zval.true else Zval.false
    match boolArg k v with
    | .taken => pure (some b)
    | .deprecated => do
      emit (.nullDeprecated arg)
      pure (some b)
    | .rejected => pure none

/-- The arguments one after the other, up to the first that is not accepted. -/
def parseArgs (k : Caller) : ℕ → List ParamType → List Zval → Call (List Zval × Option Complaint)
  | n, t :: params, v :: args => do
    match ← zendParseArg k n t v with
    | none => pure ([], some (.type n t))
    | some v => do
      let rest ← parseArgs k (n + 1) params args
      pure (v :: rest.1, rest.2)
  | _, _, _ => pure ([], none)

/-- `zend_parse_parameters`: what has been stored, and the complaint, if there is one. -/
def zendParseParameters (k : Caller) (s : Signature) (args : List Zval) : Call (List Zval × Option Complaint) :=
  if args.length < s.least ∨ s.params.length < args.length then
    pure ([], some (.count s.least s.params.length args.length))
  else parseArgs k 1 s.params args

/-- A function of PHP: its parameters, and what it does with the arguments. -/
structure PhpFunction where
  signature : Signature
  body : List Zval → Call Zval

/-- A list is rejected: an exception, or a warning and `NULL`. -/
def reject (k : Caller) (c : Complaint) : Call Zval :=
  if k.throws then abort (.argumentError c)
  else do
    emit (.warning c)
    pure .null

/-- A function is called. -/
def PhpFunction.call (k : Caller) (f : PhpFunction) (args : List Zval) : Call Zval := do
  let (parsed, complaint) ← zendParseParameters k f.signature args
  match complaint with
  | none => f.body parsed
  | some c => reject k c

/-! ### The handlers -/

/-- `*value`, if it has been written. -/
def readValue (value : Option Zval) : Call Zval :=
  match value with
  | some v => pure v
  | none => abort .uninitialized

/-- `array_handler`. While an exception is pending, `call_user_function` does nothing; it calls from internal code,
which has no strict types. -/
def arrayHandler (k : Caller) (orig : PhpFunction) (spec : String) (args : List Zval) : Call Zval := do
  let (parsed, complaint) ← zendParseParameters k (.ofSpec spec) args
  match complaint with
  | some c => if k.throws then pure () else emit (.warning c)
  | none => pure ()
  let value ← readValue parsed[0]?
  let array := parsed[1]?
  let params := [value, array.getD .null, .true]
  let nbParams := if array.isSome then 3 else args.length
  match complaint with
  | some c =>
    if k.throws then abort (.argumentError c)
    else orig.call { k with strictTypes := false } (params.take nbParams)
  | none => orig.call { k with strictTypes := false } (params.take nbParams)

/-- `in_array(mixed $needle, array $haystack, bool $strict = false)`, and `array_search` with the same parameters. -/
def searchSignature : Signature := ⟨2, [.mixed, .array, .bool]⟩

/-- `array_keys(array $array, mixed $filter_value = ?, bool $strict = false)`. -/
def keysSignature : Signature := ⟨1, [.array, .mixed, .bool]⟩

/-- `sp_in_array`. -/
def spInArray (k : Caller) (inArray : List Zval → Call Zval) : List Zval → Call Zval :=
  arrayHandler k ⟨searchSignature, inArray⟩ "zz|b"

/-- `sp_array_search`. -/
def spArraySearch (k : Caller) (arraySearch : List Zval → Call Zval) : List Zval → Call Zval :=
  arrayHandler k ⟨searchSignature, arraySearch⟩ "zz|b"

/-- `sp_array_keys`. -/
def spArrayKeys (k : Caller) (arrayKeys : List Zval → Call Zval) : List Zval → Call Zval :=
  arrayHandler k ⟨keysSignature, arrayKeys⟩ "z|zb"

/-! ### What is meant -/

/-- Strict comparison is forced on, where two values are compared at all. -/
def forceStrict : List Zval → List Zval
  | v :: a :: _ => [v, a, .true]
  | parsed => parsed

/-- **The function with strict comparison forced on**: it takes and rejects the lists it always does. -/
def PhpFunction.strictCall (k : Caller) (f : PhpFunction) (args : List Zval) : Call Zval :=
  ({ f with body := fun parsed => f.body (forceStrict parsed) } : PhpFunction).call k args

/-- What the third argument is. -/
def thirdArg (k : Caller) (args : List Zval) : BoolArg :=
  match args[2]? with
  | some v => boolArg k v
  | none => .taken

/-- **The list is served**: the function takes so many arguments; if it is given an array where it wants one, a third
argument that is no `bool` is an error; and otherwise nothing is to be said about the third argument, and errors do not
depend on strict types. -/
def Served (k : Caller) (least haystack : ℕ) (args : List Zval) : Prop :=
  (least ≤ args.length ∧ args.length ≤ 3) ∧
    if (args[haystack]?.map isArray).getD false then thirdArg k args = .rejected → k.throws = true
    else thirdArg k args = .taken ∧ (80000 ≤ k.phpVersionId ∨ k.strictTypes = false)

/-- What is documented of the three functions: they return booleans, keys or arrays. -/
structure Documented (body : List Zval → Call Zval) : Prop where
  neverNull : ∀ parsed, (body parsed).out ≠ .ok .null
  initialized : ∀ parsed, (body parsed).out ≠ .error .uninitialized

/-- **The handler is the function with strict comparison forced on**, and reads only arguments that have been
parsed. -/
structure Faithful (k : Caller) (f : PhpFunction) (handler : List Zval → Call Zval) (args : List Zval) : Prop where
  same : handler args = f.strictCall k args
  initialized : (handler args).out ≠ .error .uninitialized

section Lists
variable {k : Caller} {body : List Zval → Call Zval} {c c' : Complaint}

/-- The caller `array_handler` is. -/
abbrev weak (k : Caller) : Caller := { k with strictTypes := false }

theorem throws_weak : (weak k).throws = decide (80000 ≤ k.phpVersionId) := Bool.or_false _

theorem ofSpec_search : Signature.ofSpec "zz|b" = ⟨2, [.mixed, .mixed, .bool]⟩ := by decide +kernel

theorem ofSpec_keys : Signature.ofSpec "z|zb" = ⟨1, [.mixed, .mixed, .bool]⟩ := by decide +kernel

/-! ### Results that differ -/

theorem reject_of_throws (h : k.throws = true) : reject k c = abort (.argumentError c) := if_pos h

theorem reject_of_not_throws (h : k.throws = false) : reject k c = (do emit (.warning c); pure .null) :=
  if_neg (by rw [h]; decide)

theorem reject_eq_reject {k' : Caller} : reject k c = reject k' c ↔ k.throws = k'.throws := by
  cases hk : k.throws <;> cases hk' : k'.throws
  · rw [reject_of_not_throws hk, reject_of_not_throws hk']
    simp
  · rw [reject_of_not_throws hk, reject_of_throws hk']
    exact iff_of_false (fun h => nomatch congrArg Run.out h) nofun
  · rw [reject_of_throws hk, reject_of_not_throws hk']
    exact iff_of_false (fun h => nomatch congrArg Run.out h) nofun
  · rw [reject_of_throws hk, reject_of_throws hk']
    simp

theorem log_reject : (reject k c).log = if k.throws then [] else [.warning c] := by
  unfold reject
  split_ifs <;> rfl

/-- The rejection of a list reads nothing that has not been written. -/
theorem reject_ne_uninitialized : (reject k c).out ≠ .error .uninitialized := by
  unfold reject
  split_ifs <;> exact nofun

/-! ### What becomes of the third argument -/

/-- The handler, once it has parsed: the call follows, if no exception is pending. -/
def afterThird (k : Caller) (t : BoolArg) (call : Call Zval) : Call Zval :=
  match t with
  | .taken => call
  | .deprecated => do
    emit (.nullDeprecated 3)
    call
  | .rejected =>
    if k.throws then abort (.argumentError (.type 3 .bool))
    else do
      emit (.warning (.type 3 .bool))
      call

/-- A function that has its array. -/
def withThird (k : Caller) (t : BoolArg) (run : Call Zval) : Call Zval :=
  match t with
  | .taken => run
  | .deprecated => do
    emit (.nullDeprecated 3)
    run
  | .rejected => reject k (.type 3 .bool)

/-- A function that wants an array as its `n`-th argument. -/
def ifArray (k : Caller) (array : Bool) (n : ℕ) (run : Call Zval) : Call Zval :=
  if array then run else reject k (.type n .array)

/-- **The handler and the function agree**, exactly if the list is served. -/
theorem afterThird_eq_iff {t : BoolArg} {array : Bool} {n : ℕ} {run : Call Zval}
    (hrun : run.out ≠ .ok .null) :
    afterThird k t (ifArray (weak k) array n run) = ifArray k array n (withThird k t run) ↔
      if array then t = .rejected → k.throws = true
      else t = .taken ∧ (80000 ≤ k.phpVersionId ∨ k.strictTypes = false) := by
  have hthrows : (weak k).throws = k.throws ↔ 80000 ≤ k.phpVersionId ∨ k.strictTypes = false := by
    rw [throws_weak, Caller.throws]
    cases k.strictTypes <;> simp
  cases array with
  | true =>
    show afterThird k t run = withThird k t run ↔ (t = .rejected → k.throws = true)
    cases t with
    | taken => exact iff_of_true rfl nofun
    | deprecated => exact iff_of_true rfl nofun
    | rejected =>
      cases ht : k.throws with
      | true =>
        refine iff_of_true ?_ fun _ => rfl
        rw [withThird, reject_of_throws ht, afterThird, if_pos ht]
      | false =>
        refine iff_of_false (fun h => hrun ?_) fun h => nomatch h rfl
        rw [withThird, reject_of_not_throws ht, afterThird, if_neg (by rw [ht]; decide)] at h
        simpa using congrArg Run.out h
  | false =>
    show afterThird k t (reject (weak k) (.type n .array)) = reject k (.type n .array) ↔ _
    rw [if_neg Bool.false_ne_true, ← hthrows]
    cases t with
    | taken => exact reject_eq_reject.trans (and_iff_right rfl).symm
    | deprecated =>
      refine iff_of_false (fun h => ?_) fun h => nomatch h.1
      have hhead := congrArg (fun x => x.log.head?) h
      rw [log_reject] at hhead
      split_ifs at hhead <;> cases hhead
    | rejected =>
      refine iff_of_false (fun h => ?_) fun h => nomatch h.1
      unfold afterThird at h
      dsimp only at h
      cases ht : k.throws with
      | true =>
        rw [if_pos ht, reject_of_throws ht] at h
        cases congrArg Run.out h
      | false =>
        rw [if_neg (by rw [ht]; decide)] at h
        have hhead := congrArg (fun x => x.log.head?) h
        rw [log_reject, if_neg (by rw [ht]; decide)] at hhead
        cases hhead

/-! ### The lists -/

/-- Too few or too many arguments are complained about first. -/
theorem zendParseParameters_count {s : Signature} {args : List Zval}
    (h : args.length < s.least ∨ s.params.length < args.length) :
    zendParseParameters k s args = pure ([], some (.count s.least s.params.length args.length)) := if_pos h

/-- **A wrong number of arguments**: the handler reads what has not been written. -/
theorem arrayHandler_count {f : PhpFunction} {spec : String} {args : List Zval}
    (h : args.length < (Signature.ofSpec spec).least ∨ (Signature.ofSpec spec).params.length < args.length) :
    (arrayHandler k f spec args).out = .error .uninitialized := by
  unfold arrayHandler
  rw [zendParseParameters_count h, pure_bind]
  dsimp only
  split_ifs <;> rfl

theorem strictCall_count {f : PhpFunction} {args : List Zval}
    (h : args.length < f.signature.least ∨ f.signature.params.length < args.length) :
    f.strictCall k args = reject k (.count f.signature.least f.signature.params.length args.length) := by
  unfold PhpFunction.strictCall PhpFunction.call
  rw [zendParseParameters_count h]
  rfl

/-- Two arguments or three, as the handler parses them. -/
theorem arrayHandler_eq {f : PhpFunction} {spec : String} {a b : Zval} {args : List Zval} (hargs : args.length ≤ 1)
    (hspec : (Signature.ofSpec spec).params = [.mixed, .mixed, .bool]) (hleast : (Signature.ofSpec spec).least ≤ 2) :
    arrayHandler k f spec (a :: b :: args) =
      afterThird k (thirdArg k (a :: b :: args)) (f.call (weak k) [a, b, .true]) := by
  unfold arrayHandler zendParseParameters
  rw [hspec]
  rcases args with _ | ⟨d, _ | ⟨e, args⟩⟩
  · rw [if_neg (by simp; omega)]
    simp [parseArgs, zendParseArg, readValue, afterThird, thirdArg]
  · rw [if_neg (by simp; omega)]
    cases hd : boolArg k d <;> cases ht : k.throws <;>
      simp [parseArgs, zendParseArg, readValue, afterThird, thirdArg, hd, ht]
  · simp at hargs

theorem call_search {a b : Zval} : (PhpFunction.mk searchSignature body).call (weak k) [a, b, .true] =
    ifArray (weak k) (isArray b) 2 (body [a, deref b, .true]) := by
  cases hb : isArray b <;>
    simp [PhpFunction.call, zendParseParameters, searchSignature, parseArgs, zendParseArg, boolArg, deref, zendIsTrue,
      hb, ifArray]

theorem call_keys {a b : Zval} : (PhpFunction.mk keysSignature body).call (weak k) [a, b, .true] =
    ifArray (weak k) (isArray a) 1 (body [deref a, b, .true]) := by
  cases ha : isArray a <;>
    simp [PhpFunction.call, zendParseParameters, keysSignature, parseArgs, zendParseArg, boolArg, deref, zendIsTrue,
      ha, ifArray]

theorem strictCall_search {a b : Zval} {args : List Zval} (hargs : args.length ≤ 1) :
    (PhpFunction.mk searchSignature body).strictCall k (a :: b :: args) =
      ifArray k (isArray b) 2 (withThird k (thirdArg k (a :: b :: args)) (body [a, deref b, .true])) := by
  rcases args with _ | ⟨d, _ | ⟨e, args⟩⟩
  · cases hb : isArray b <;>
      simp [PhpFunction.strictCall, PhpFunction.call, zendParseParameters, searchSignature, parseArgs, zendParseArg,
        hb, ifArray, withThird, thirdArg, forceStrict]
  · cases hb : isArray b <;> cases hd : boolArg k d <;>
      simp [PhpFunction.strictCall, PhpFunction.call, zendParseParameters, searchSignature, parseArgs, zendParseArg,
        hb, hd, ifArray, withThird, thirdArg, forceStrict]
  · simp at hargs

theorem strictCall_keys {a b : Zval} {args : List Zval} (hargs : args.length ≤ 1) :
    (PhpFunction.mk keysSignature body).strictCall k (a :: b :: args) =
      ifArray k (isArray a) 1 (withThird k (thirdArg k (a :: b :: args)) (body [deref a, b, .true])) := by
  rcases args with _ | ⟨d, _ | ⟨e, args⟩⟩
  · cases ha : isArray a <;>
      simp [PhpFunction.strictCall, PhpFunction.call, zendParseParameters, keysSignature, parseArgs, zendParseArg,
        ha, ifArray, withThird, thirdArg, forceStrict]
  · cases ha : isArray a <;> cases hd : boolArg k d <;>
      simp [PhpFunction.strictCall, PhpFunction.call, zendParseParameters, keysSignature, parseArgs, zendParseArg,
        ha, hd, ifArray, withThird, thirdArg, forceStrict]
  · simp at hargs

/-- One argument is what `array_keys` needs. -/
theorem arrayHandler_keys_one {a : Zval} : spArrayKeys k body [a] = ifArray (weak k) (isArray a) 1 (body [deref a]) := by
  unfold spArrayKeys arrayHandler
  rw [ofSpec_keys]
  cases ha : isArray a <;>
    simp [PhpFunction.call, zendParseParameters, keysSignature, parseArgs, zendParseArg, readValue, ha, ifArray]

theorem strictCall_keys_one {a : Zval} : (PhpFunction.mk keysSignature body).strictCall k [a] =
    ifArray k (isArray a) 1 (body [deref a]) := by
  cases ha : isArray a <;>
    simp [PhpFunction.strictCall, PhpFunction.call, zendParseParameters, keysSignature, parseArgs, zendParseArg,
      ha, ifArray, forceStrict]

/-- A list with a wrong number of arguments is not served. -/
theorem not_served_count {f : PhpFunction} {spec : String} {args : List Zval} {haystack : ℕ}
    (hleast : (Signature.ofSpec spec).least = f.signature.least)
    (hparams : (Signature.ofSpec spec).params.length = 3) (hsig : f.signature.params.length = 3)
    (h : args.length < f.signature.least ∨ 3 < args.length) :
    arrayHandler k f spec args = f.strictCall k args ↔ Served k f.signature.least haystack args := by
  refine iff_of_false (fun heq => ?_) fun hs => by have := hs.1; omega
  have hout := congrArg Run.out heq
  rw [arrayHandler_count (by rw [hleast, hparams]; exact h), strictCall_count (by rw [hsig]; exact h)] at hout
  exact reject_ne_uninitialized hout.symm

/-- The parser comes to its end. -/
theorem out_parseArgs (k : Caller) : ∀ n params args, ∃ p, (parseArgs k n params args).out = .ok p
  | n, [], _ => ⟨_, rfl⟩
  | n, _ :: _, [] => ⟨_, rfl⟩
  | n, t :: params, v :: args => by
    obtain ⟨o, ho⟩ : ∃ o, (zendParseArg k n t v).out = .ok o := by
      cases t with
      | mixed => exact ⟨_, rfl⟩
      | array => exact ⟨_, rfl⟩
      | bool =>
        unfold zendParseArg
        cases boolArg k v <;> exact ⟨_, rfl⟩
    rw [parseArgs, out_bind, ho, ok_bind]
    cases o with
    | none => exact ⟨_, rfl⟩
    | some v =>
      obtain ⟨rest, hrest⟩ := out_parseArgs k (n + 1) params args
      dsimp only
      rw [out_bind, hrest]
      exact ⟨_, rfl⟩

/-- PHP's functions read only what has been parsed. -/
theorem strictCall_initialized {s : Signature} (hbody : Documented body) (args : List Zval) :
    (PhpFunction.strictCall k ⟨s, body⟩ args).out ≠ .error .uninitialized := by
  obtain ⟨⟨parsed, complaint⟩, hp⟩ : ∃ p, (zendParseParameters k s args).out = .ok p := by
    unfold zendParseParameters
    split_ifs
    · exact ⟨_, rfl⟩
    · exact out_parseArgs k _ _ _
  unfold PhpFunction.strictCall PhpFunction.call
  rw [out_bind, hp, ok_bind]
  cases complaint with
  | none => exact hbody.initialized _
  | some c => exact reject_ne_uninitialized

theorem faithful_iff {s : Signature} {handler : List Zval → Call Zval} (hbody : Documented body) {args : List Zval} :
    Faithful k ⟨s, body⟩ handler args ↔ handler args = PhpFunction.strictCall k ⟨s, body⟩ args :=
  ⟨Faithful.same, fun h => ⟨h, h ▸ strictCall_initialized hbody args⟩⟩

theorem search_iff (hbody : Documented body) (args : List Zval) :
    arrayHandler k ⟨searchSignature, body⟩ "zz|b" args = PhpFunction.strictCall k ⟨searchSignature, body⟩ args ↔
      Served k 2 1 args := by
  by_cases hcount : args.length < 2 ∨ 3 < args.length
  · exact not_served_count (f := ⟨searchSignature, body⟩) (by rw [ofSpec_search]; rfl) (by rw [ofSpec_search]; rfl) rfl
      hcount
  · obtain ⟨a, b, args, rfl⟩ : ∃ a b args', args = a :: b :: args' := by
      rcases args with _ | ⟨a, _ | ⟨b, args⟩⟩
      · simp at hcount
      · simp at hcount
      · exact ⟨a, b, args, rfl⟩
    have hargs : args.length ≤ 1 := by
      simp only [List.length_cons] at hcount
      omega
    rw [arrayHandler_eq hargs (by rw [ofSpec_search]) (by rw [ofSpec_search]), call_search, strictCall_search hargs,
      afterThird_eq_iff (hbody.neverNull _)]
    exact (and_iff_right (by simp only [List.length_cons]; omega)).symm

theorem keys_iff (hbody : Documented body) (args : List Zval) :
    spArrayKeys k body args = PhpFunction.strictCall k ⟨keysSignature, body⟩ args ↔ Served k 1 0 args := by
  by_cases hcount : args.length < 1 ∨ 3 < args.length
  · exact not_served_count (f := ⟨keysSignature, body⟩) (by rw [ofSpec_keys]; rfl) (by rw [ofSpec_keys]; rfl) rfl
      hcount
  · rcases args with _ | ⟨a, _ | ⟨b, args⟩⟩
    · simp at hcount
    · rw [arrayHandler_keys_one, strictCall_keys_one]
      exact (afterThird_eq_iff (t := .taken) (hbody.neverNull _)).trans (and_iff_right (by simp)).symm
    · have hargs : args.length ≤ 1 := by
        simp only [List.length_cons] at hcount
        omega
      unfold spArrayKeys
      rw [arrayHandler_eq hargs (by rw [ofSpec_keys]) (by rw [ofSpec_keys]; decide), call_keys, strictCall_keys hargs,
        afterThird_eq_iff (hbody.neverNull _)]
      exact (and_iff_right (by simp only [List.length_cons]; omega)).symm

end Lists

/-- **The array functions compare strictly**, exactly on the lists that are served. -/
theorem array_handler_iff (k : Caller) {inArray arraySearch arrayKeys : List Zval → Call Zval}
    (hin : Documented inArray) (hsearch : Documented arraySearch) (hkeys : Documented arrayKeys) (args : List Zval) :
    (Faithful k ⟨searchSignature, inArray⟩ (spInArray k inArray) args ↔ Served k 2 1 args) ∧
    (Faithful k ⟨searchSignature, arraySearch⟩ (spArraySearch k arraySearch) args ↔ Served k 2 1 args) ∧
    (Faithful k ⟨keysSignature, arrayKeys⟩ (spArrayKeys k arrayKeys) args ↔ Served k 1 0 args) :=
  ⟨(faithful_iff hin).trans (search_iff hin args), (faithful_iff hsearch).trans (search_iff hsearch args),
    (faithful_iff hkeys).trans (keys_iff hkeys args)⟩

theorem documented_const {v : Zval} (hv : v ≠ .null) : Documented fun _ => pure v :=
  ⟨fun _ h => hv (Except.ok.inj h), fun _ h => nomatch h⟩

/-- `1` and `[1]`, given by code without strict types: `in_array` finds the value, `array_search` its key. -/
theorem array_handler_found :
    let k : Caller := ⟨80200, false⟩
    let args : List Zval := [.long 1, .array [(.idx 0, .long 1)]]
    Faithful k ⟨searchSignature, fun _ => pure .true⟩ (spInArray k fun _ => pure .true) args ∧
    Faithful k ⟨searchSignature, fun _ => pure (.long 0)⟩ (spArraySearch k fun _ => pure (.long 0)) args := by
  obtain ⟨hin, hsearch, -⟩ := array_handler_iff ⟨80200, false⟩ (documented_const (v := .true) nofun)
    (documented_const (v := .long 0) nofun) (documented_const (v := .array []) nofun)
    [.long 1, .array [(.idx 0, .long 1)]]
  have hserved : Served ⟨80200, false⟩ 2 1 [.long 1, .array [(.idx 0, .long 1)]] := ⟨by decide, nofun⟩
  exact ⟨hin.mpr hserved, hsearch.mpr hserved⟩

/-- **`in_array(1)`** reads what has not been written, instead of an error. -/
theorem array_handler_uninitialized :
    (spInArray ⟨80200, false⟩ (fun _ => pure .true) [.long 1]).out = .error .uninitialized ∧
    ¬Faithful ⟨80200, false⟩ ⟨searchSignature, fun _ => pure .true⟩ (spInArray ⟨80200, false⟩ fun _ => pure .true)
      [.long 1] := by
  have hout : (spInArray ⟨80200, false⟩ (fun _ => pure .true) [.long 1]).out = .error .uninitialized :=
    arrayHandler_count (by rw [ofSpec_search]; decide)
  exact ⟨hout, fun h => h.initialized hout⟩

end Snuffleupagus.Sloppy.ArrayHandler
