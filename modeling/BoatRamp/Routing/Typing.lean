import BoatRamp.Library.Fallible
import BoatRamp.Routing.Predicate

/-!
# Typed expressions

The rules behind the check of a condition: an expression passes with a type
exactly when it has that type.  A typed expression evaluates to a value of its
type unless an argument is read at a type the rules do not ask of it: they let
any argument stand in a string method and any item in a list of languages.
-/

namespace BoatRamp.Routing

open Library Value List

inductive Typed : Expr → ValueType → Prop
  | str (text : Text) : Typed (.str text) .str
  | int (value : Nat) : Typed (.int value) .int
  | bool (value : Bool) : Typed (.bool value) .bool
  | list {items : List Expr} {types : Expr → ValueType} :
      (∀ item ∈ items, Typed item (types item)) → Typed (.list items) .list
  | var {name : Text} : name ∈ ["method".toList, "host".toList, "path".toList] →
      Typed (.var name) .str
  | named {name : Text} (text : Text) :
      name ∈ ["header".toList, "cookie".toList, "query".toList] →
        Typed (.call name [.str text]) .str
  | test {name : Text} {argument : Expr} :
      name ∈ ["file_exists".toList, "accepts_language".toList] →
        Typed argument .str → Typed (.call name [argument]) .bool
  | prefers {items : List Expr} {types : Expr → ValueType} :
      (∀ item ∈ items, Typed item (types item)) →
        Typed (.call "prefers_language".toList [.list items]) .str
  | method {recv argument : Expr} {name : Text} {received read : ValueType} :
      name ∈ ["startsWith".toList, "endsWith".toList, "contains".toList] →
        checkReceiver name received = .ok () → Typed recv received → Typed argument read →
          Typed (.method recv name [argument]) .bool
  | not {inner : Expr} : Typed inner .bool → Typed (.not inner) .bool
  | and {lhs rhs : Expr} : Typed lhs .bool → Typed rhs .bool → Typed (.and lhs rhs) .bool
  | or {lhs rhs : Expr} : Typed lhs .bool → Typed rhs .bool → Typed (.or lhs rhs) .bool
  | eq {lhs rhs : Expr} {type : ValueType} : Typed lhs type → Typed rhs type →
      Typed (.eq lhs rhs) .bool
  | notEq {lhs rhs : Expr} {type : ValueType} : Typed lhs type → Typed rhs type →
      Typed (.notEq lhs rhs) .bool
  | member {lhs rhs : Expr} {type : ValueType} : Typed lhs type → Typed rhs .list →
      Typed (.in lhs rhs) .bool
  | concat {lhs rhs : Expr} : Typed lhs .str → Typed rhs .str → Typed (.concat lhs rhs) .str

def Checked (expr : Expr) : Prop := ∃ type, check expr = .ok type

theorem expectType_ok {got : Except ConfigError ValueType} {w : ValueType}
    (ha : expectType got w = .ok ()) : got = .ok w := by
  obtain ⟨type, hc, hs⟩ := bind_eq_ok_iff.mp ha
  by_cases he : type = w
  · rw [hc, he]
  · simp [he] at hs

theorem arity_ok {name : Text} {a : List Expr} {c : Nat}
    (ha : arity name a c = .ok ()) : a.length = c := by
  by_contra hd
  simp [arity, hd] at ha

theorem operands_ok {lhs rhs : Except ConfigError ValueType} {l r res type : ValueType}
    (ha : (do
      expectType lhs l
      expectType rhs r
      pure res) = .ok type) : lhs = .ok l ∧ rhs = .ok r ∧ res = type := by
  obtain ⟨_, hl, hla⟩ := bind_eq_ok_iff.mp ha
  obtain ⟨_, hr, last⟩ := bind_eq_ok_iff.mp hla
  cases last
  exact ⟨expectType_ok hl, expectType_ok hr, rfl⟩

theorem checkComparison_ok {lhs rhs : Except ConfigError ValueType} {type : ValueType}
    (ha : checkComparison lhs rhs = .ok type) : ∃ c, lhs = .ok c ∧ rhs = .ok c ∧ type = .bool := by
  obtain ⟨l, hl, hla⟩ := bind_eq_ok_iff.mp ha
  obtain ⟨r, hr, last⟩ := bind_eq_ok_iff.mp hla
  split_ifs at last with hs
  cases last
  exact ⟨l, hl, hs ▸ hr, rfl⟩

-- The recursion is on the expression; the one argument of a call counts as a part of it.
mutual

theorem check_typed : (expr : Expr) → (type : ValueType) → check expr = .ok type → Typed expr type
  | .str text, _, accepted => by
      cases accepted
      exact .str text
  | .int value, _, accepted => by
      cases accepted
      exact .int value
  | .bool value, _, accepted => by
      cases accepted
      exact .bool value
  | .list xs, _, accepted => by
      obtain ⟨_, all, last⟩ := bind_eq_ok_iff.mp accepted
      cases last
      have : Nonempty ValueType := ⟨.bool⟩
      choose! types typed using checkAll_typed xs all
      exact .list typed
  | .var name, _, accepted => by
      rw [check, checkVar] at accepted
      split_ifs at accepted with known
      cases accepted
      exact .var known
  | .call name args, _, accepted => by
      rw [check] at accepted
      unfold checkCall at accepted
      split_ifs at accepted with known known only
      · obtain ⟨_, counted, literal⟩ := bind_eq_ok_iff.mp accepted
        obtain ⟨argument, rfl⟩ := length_eq_one_iff.mp (arity_ok counted)
        cases argument with
        | str text =>
          cases literal
          exact .named text known
        | _ => cases literal
      · obtain ⟨_, counted, later⟩ := bind_eq_ok_iff.mp accepted
        obtain ⟨_, typed, last⟩ := bind_eq_ok_iff.mp later
        obtain ⟨argument, rfl⟩ := length_eq_one_iff.mp (arity_ok counted)
        cases last
        exact .test known (check_typed argument _ (expectType_ok typed))
      obtain ⟨_, counted, later⟩ := bind_eq_ok_iff.mp accepted
      obtain ⟨_, typed, last⟩ := bind_eq_ok_iff.mp later
      obtain ⟨argument, rfl⟩ := length_eq_one_iff.mp (arity_ok counted)
      cases last
      -- Only a list literal has the type of lists.
      cases check_typed argument _ (expectType_ok typed) with
      | list each => exact only ▸ .prefers each
  | .method recv name args, _, accepted => by
      rw [check, checkMethod] at accepted
      split_ifs at accepted with known several
      obtain ⟨argument, rfl⟩ := length_eq_one_iff.mp (not_not.mp several)
      obtain ⟨received, typed, later⟩ := bind_eq_ok_iff.mp accepted
      obtain ⟨_, applies, later⟩ := bind_eq_ok_iff.mp later
      obtain ⟨read, first, last⟩ := bind_eq_ok_iff.mp later
      cases last
      exact .method known applies (check_typed recv _ typed) (check_typed argument _ first)
  | .not inner, _, accepted => by
      obtain ⟨_, typed, last⟩ := bind_eq_ok_iff.mp accepted
      cases last
      exact .not (check_typed inner _ (expectType_ok typed))
  | .and lhs rhs, _, accepted => by
      obtain ⟨left, right, rfl⟩ := operands_ok accepted
      exact .and (check_typed lhs _ left) (check_typed rhs _ right)
  | .or lhs rhs, _, accepted => by
      obtain ⟨left, right, rfl⟩ := operands_ok accepted
      exact .or (check_typed lhs _ left) (check_typed rhs _ right)
  | .eq lhs rhs, _, accepted => by
      obtain ⟨_, left, right, rfl⟩ := checkComparison_ok accepted
      exact .eq (check_typed lhs _ left) (check_typed rhs _ right)
  | .notEq lhs rhs, _, accepted => by
      obtain ⟨_, left, right, rfl⟩ := checkComparison_ok accepted
      exact .notEq (check_typed lhs _ left) (check_typed rhs _ right)
  | .in lhs rhs, _, accepted => by
      obtain ⟨_, left, later⟩ := bind_eq_ok_iff.mp accepted
      obtain ⟨_, right, last⟩ := bind_eq_ok_iff.mp later
      cases last
      exact .member (check_typed lhs _ left) (check_typed rhs _ (expectType_ok right))
  | .concat lhs rhs, _, accepted => by
      obtain ⟨left, right, rfl⟩ := operands_ok accepted
      exact .concat (check_typed lhs _ left) (check_typed rhs _ right)
termination_by expr => sizeOf expr

theorem checkAll_typed : (xs : List Expr) → checkAll xs = .ok () → ∀ x ∈ xs, ∃ type, Typed x type
  | [], _ => by simp
  | x :: xs, accepted => by
      obtain ⟨type, typed, later⟩ := bind_eq_ok_iff.mp accepted
      exact forall_mem_cons.mpr ⟨⟨type, check_typed x type typed⟩, checkAll_typed xs later⟩
termination_by xs => sizeOf xs

end

theorem checkAll_ok {xs : List Expr} {t : Expr → ValueType}
    (he : ∀ x ∈ xs, check x = .ok (t x)) : checkAll xs = .ok () := by
  induction xs with
  | nil => rfl
  | cons x xs ih =>
    obtain ⟨ht, hl⟩ := forall_mem_cons.mp he
    rw [checkAll, ht]
    exact ih hl

theorem Typed.check_eq {expr : Expr} {type : ValueType} (ht : Typed expr type) :
    check expr = .ok type := by
  induction ht with
  | str | int | bool => rfl
  | list _ ih =>
    rw [check, checkAll_ok ih]
    rfl
  | var hk | named text hk => exact if_pos hk
  | @test name _ hk _ ih =>
    have ho : name ∉ ["header".toList, "cookie".toList, "query".toList] := by
      rcases mem_pair.mp hk with rfl | rfl <;> decide
    rw [check]
    unfold checkCall
    rw [if_neg ho, if_pos hk, checkFirst, ih]
    rfl
  | prefers _ ih =>
    rw [check]
    unfold checkCall
    rw [if_neg (by decide), if_neg (by decide), if_pos rfl, checkFirst, check, checkAll_ok ih]
    rfl
  | method hk ha _ _ first hs =>
    rw [check, checkMethod, if_pos hk, checkFirst, first, hs]
    simp [ha, bind, Except.bind, pure, Except.pure]
  | not _ ih =>
    rw [check, ih]
    rfl
  | and _ _ first hs | or _ _ first hs | member _ _ first hs | concat _ _ first hs =>
    rw [check, first, hs]
    rfl
  | eq _ _ first hs | notEq _ _ first hs =>
    rw [check, first, hs]
    exact if_pos rfl

def Value.type : Value → ValueType
  | .bool _ => .bool
  | .str _ => .str
  | .int _ => .int
  | .list _ => .list

mutual

/-- Every argument that an evaluation reaches has the type it is read at: a
string method reads a string, and a list of languages holds strings.  The right
side of a connective is reached where the left side does not decide it. -/
def Fits (env : EvalEnv) : Expr → Prop
  | .str _ | .int _ | .bool _ | .var _ => True
  | .list items => FitsAll env items
  | .call name args => FitsAll env args ∧ (name = "prefers_language".toList →
      ∀ items, .list items ∈ args → ∀ item ∈ items, check item = .ok .str)
  | .method recv _ args => Fits env recv ∧ FitsAll env args ∧
      (check recv = .ok .str → ∀ arg ∈ args, check arg = .ok .str)
  | .not inner => Fits env inner
  | .and lhs rhs => Fits env lhs ∧ ((Predicate.mk lhs []).eval env = true → Fits env rhs)
  | .or lhs rhs => Fits env lhs ∧ ((Predicate.mk lhs []).eval env = false → Fits env rhs)
  | .eq lhs rhs | .notEq lhs rhs | .in lhs rhs | .concat lhs rhs => Fits env lhs ∧ Fits env rhs

def FitsAll (env : EvalEnv) : List Expr → Prop
  | [] => True
  | item :: items => Fits env item ∧ FitsAll env items

end

inductive Settles (fits : Prop) (result : Option Value) (type : ValueType) : Prop
  | value (holds : fits) (value : Value) (found : result = some value) (typed : value.type = type)
  | stuck (fails : ¬ fits) (none : result = none)

namespace Settles

variable {fits more : Prop} {first : Option Value} {next : Value → Option Value}
  {type last : ValueType}

theorem congr (hse : Settles fits first type) (hs : fits ↔ more) : Settles more first type :=
  propext hs ▸ hse

theorem bind (hs : Settles fits first type)
    (hl : ∀ value, first = some value → value.type = type → Settles more (next value) last) :
    Settles (fits ∧ more) (first >>= next) last := by
  cases hs with
  | stuck hfa hn => exact .stuck (fun hb => hfa hb.1) (by rw [hn]; rfl)
  | value hh value hf ht =>
    rw [hf]
    exact (hl value hf ht).congr ⟨fun hr => ⟨hh, hr⟩, And.right⟩

theorem map (hs : Settles fits first type)
    (ht : ∀ v, v.type = type → ∃ res, next v = some res ∧ res.type = last) :
    Settles fits (first >>= next) last := by
  refine (hs.bind fun v _ hty => ?_).congr (and_iff_left trivial)
  obtain ⟨res, hf, hr⟩ := ht v hty
  exact .value trivial res hf hr

theorem some_iff (hs : Settles fits first type) :
    (∃ value, first = some value ∧ value.type = type) ↔ fits := by
  cases hs with
  | value hh value hfo ht => simp [hh, hfo, ht]
  | stuck hf hn => simp [hf, hn]

end Settles

theorem Value.of_bool {v : Value} (ht : v.type = .bool) : ∃ t, v = .bool t := by
  cases v with
  | bool t => exact ⟨t, rfl⟩
  | _ => cases ht

theorem Value.of_str {v : Value} (ht : v.type = .str) : ∃ text, v = .str text := by
  cases v with
  | str text => exact ⟨text, rfl⟩
  | _ => cases ht

theorem Value.of_list {v : Value} (ht : v.type = .list) : ∃ xs, v = .list xs := by
  cases v with
  | list xs => exact ⟨xs, rfl⟩
  | _ => cases ht

variable {env : EvalEnv}

theorem evalMethod_settles {name : Text} {r a : Value}
    (hk : name ∈ ["startsWith".toList, "endsWith".toList, "contains".toList])
    (ha : checkReceiver name r.type = .ok ()) : Settles (r.type = .str → a.type = .str)
      (evalMethod (some r) name (some a)) .bool := by
  simp only [mem_cons, not_mem_nil, or_false] at hk
  cases r with
  | str text =>
    cases a with
    | str p =>
      rcases hk with rfl | rfl | rfl
      · exact .value (fun _ => rfl) (.bool (decide (p <+: text))) rfl rfl
      · exact .value (fun _ => rfl) (.bool (decide (p <:+ text))) rfl rfl
      · exact .value (fun _ => rfl) (.bool (decide (p <:+: text))) rfl rfl
    | _ => rcases hk with rfl | rfl | rfl <;> exact .stuck (fun hr => by cases hr rfl) rfl
  | list xs =>
    rcases hk with rfl | rfl | rfl
    · cases ha
    · cases ha
    · exact .value nofun (.bool (xs.any fun x => x.same a)) rfl rfl
  | bool _ | int _ => rcases hk with rfl | rfl | rfl <;> cases ha

theorem evalAll_settles {items : List Expr} {types : Expr → ValueType}
    (he : ∀ item ∈ items, Settles (Fits env item) (evalExpr env item) (types item)) :
    (FitsAll env items ∧ ∃ values, evalAll env items = some values ∧
      ((values.mapM asStr).isSome ↔ ∀ item ∈ items, types item = .str)) ∨
      ¬ FitsAll env items ∧ evalAll env items = none := by
  induction items with
  | nil => exact .inl ⟨trivial, [], rfl, by simp⟩
  | cons item items ih =>
    obtain ⟨first, hl⟩ := forall_mem_cons.mp he
    cases first with
    | stuck hm none => exact .inr ⟨fun hb => hm hb.1, by simp [evalAll, none]⟩
    | value fits value hf hty =>
      rcases ih hl with ⟨ho, values, all, ht⟩ | ⟨hm, none⟩
      · refine .inl ⟨⟨fits, ho⟩, value :: values, by simp [evalAll, hf, all], ?_⟩
        rw [forall_mem_cons, ← ht, ← hty]
        cases value with
        | str text => cases more : values.mapM asStr <;> simp [asStr, type, more]
        | _ => simp [asStr, type]
      · exact .inr ⟨fun hb => hm hb.2, by simp [evalAll, hf, none]⟩

theorem Typed.settles {expr : Expr} {type : ValueType} (ht : Typed expr type) :
    Settles (Fits env expr) (evalExpr env expr) type := by
  induction ht with
  | str text => exact .value trivial (.str text) rfl rfl
  | int v => exact .value trivial (.int v) rfl rfl
  | bool v => exact .value trivial (.bool v) rfl rfl
  | list _ ih =>
    rcases evalAll_settles ih with ⟨fits, vs, hf, _⟩ | ⟨hm, none⟩
    · exact .value fits (.list vs) (by rw [evalExpr, hf]; rfl) rfl
    · exact .stuck hm (by rw [evalExpr, none]; rfl)
  | var hk =>
    simp only [mem_cons, not_mem_nil, or_false] at hk
    rcases hk with rfl | rfl | rfl
    · exact .value trivial (.str env.ctx.method) rfl rfl
    · exact .value trivial (.str env.ctx.host) rfl rfl
    · exact .value trivial (.str env.path) rfl rfl
  | named text hk =>
    simp only [mem_cons, not_mem_nil, or_false] at hk
    rcases hk with rfl | rfl | rfl <;> exact .value ⟨⟨trivial, trivial⟩, nofun⟩ (.str _) rfl rfl
  | test hk _ ih =>
    rcases mem_pair.mp hk with rfl | rfl
    · refine (ih.congr (by simp [Fits, FitsAll])).map fun v ht => ?_
      obtain ⟨path, rfl⟩ := of_str ht
      exact ⟨.bool (env.fileExists path), rfl, rfl⟩
    · refine (ih.congr (by simp [Fits, FitsAll])).map fun v ht => ?_
      obtain ⟨tag, rfl⟩ := of_str ht
      exact ⟨.bool (env.ctx.acceptsLanguage tag), rfl, rfl⟩
  | @prefers xs ty he ih =>
    rcases evalAll_settles ih with ⟨fits, vs, hf, hl⟩ | ⟨hm, none⟩
    · have hte : (vs.mapM asStr).isSome ↔ ∀ x ∈ xs, check x = .ok .str := by
        rw [hl]
        refine forall₂_congr fun x hi => ?_
        rw [(he x hi).check_eq, Except.ok.injEq]
      cases rd : vs.mapM asStr with
      | none =>
        refine .stuck (fun fits => ?_) (by simp [evalExpr, evalFirst, evalCall, hf, rd])
        have all := hte.mpr (fits.2 rfl xs (mem_singleton_self _))
        simp [rd] at all
      | some tg =>
        refine .value ⟨⟨fits, trivial⟩, fun _ o hi => ?_⟩ (.str (env.ctx.prefersLanguage tg))
          (by simp [evalExpr, evalFirst, evalCall, hf, rd]) rfl
        cases mem_singleton.mp hi
        exact hte.mp (by simp [rd])
    · exact .stuck (fun fits => hm fits.1.1) (by simp [evalExpr, evalFirst, evalCall, none])
  | @method re ar name rc rd hk ha hre har first second =>
    refine first.bind fun v _ hv =>
      (second.congr (and_iff_left trivial).symm).bind fun arg _ had => ?_
    apply (evalMethod_settles hk (hv ▸ ha)).congr
    simp [hre.check_eq, har.check_eq, hv, had]
  | not _ ih =>
    refine ih.map fun v ht => ?_
    obtain ⟨t, rfl⟩ := of_bool ht
    exact ⟨.bool !t, rfl, rfl⟩
  | and _ _ first second =>
    refine first.bind fun v hf ht => ?_
    obtain ⟨t, rfl⟩ := of_bool ht
    simp only [Predicate.eval, hf]
    cases t with
    | false => exact .value nofun (.bool false) rfl rfl
    | true =>
      refine (second.congr (by simp)).map fun v ht => ?_
      obtain ⟨t, rfl⟩ := of_bool ht
      exact ⟨.bool t, rfl, rfl⟩
  | or _ _ first second =>
    refine first.bind fun v hf ht => ?_
    obtain ⟨t, rfl⟩ := of_bool ht
    simp only [Predicate.eval, hf]
    cases t with
    | true => exact .value nofun (.bool true) rfl rfl
    | false =>
      refine (second.congr (by simp)).map fun v ht => ?_
      obtain ⟨t, rfl⟩ := of_bool ht
      exact ⟨.bool t, rfl, rfl⟩
  | eq _ _ first second =>
    exact first.bind fun l _ _ => second.map fun r _ => ⟨.bool (l.same r), rfl, rfl⟩
  | notEq _ _ first second =>
    exact first.bind fun l _ _ => second.map fun r _ => ⟨.bool !(l.same r), rfl, rfl⟩
  | member _ _ first second =>
    refine first.bind fun n _ _ => second.map fun r ht => ?_
    obtain ⟨xs, rfl⟩ := of_list ht
    exact ⟨.bool (xs.any fun x => x.same n), rfl, rfl⟩
  | concat _ _ first second =>
    refine first.bind fun l _ hle => second.map fun r hr => ?_
    obtain ⟨b, rfl⟩ := of_str hle
    obtain ⟨a, rfl⟩ := of_str hr
    exact ⟨.str (b ++ a), rfl, rfl⟩

theorem Predicate.compile_checked {s : Text} {prd : Predicate}
    (hc : Predicate.compile s = .ok prd) :
    check prd.root = .ok .bool ∧ prd.vary = sortDedup (collectVary prd.root) := by
  obtain ⟨r, _, hl⟩ := bind_eq_ok_iff.mp hc
  obtain ⟨type, ht, last⟩ := bind_eq_ok_iff.mp hl
  split_ifs at last with hb
  cases last
  exact ⟨hb ▸ ht, rfl⟩

theorem Template.compileExpr_checked {s : Text} {r : Expr}
    (hc : Template.compileExpr s = .ok r) : check r = .ok .str := by
  obtain ⟨p, _, hl⟩ := bind_eq_ok_iff.mp hc
  obtain ⟨type, ht, last⟩ := bind_eq_ok_iff.mp hl
  split_ifs at last with hs
  cases last
  exact hs ▸ ht

theorem Template.compileParts_checked {fuel : Nat} {l s : Text}
    {p : List TemplatePart} {v : List Text}
    (hc : Template.compileParts fuel l s = .ok (p, v)) {r : Expr} (hp : .expr r ∈ p) :
    check r = .ok .str ∧ ∀ hdr ∈ collectVary r, hdr ∈ v := by
  have hl : ∀ text, .expr r ∉ Template.literalPart text := by
    intro text
    unfold Template.literalPart
    split_ifs <;> simp
  fun_induction Template.compileParts fuel l s generalizing p v with
  | case1 fuel l =>
    cases hc
    exact absurd hp (hl l)
  | case2 => cases hc
  | case3 fuel l rest ih =>
    obtain ⟨⟨s, la⟩, _, hc⟩ := bind_eq_ok_iff.mp hc
    obtain ⟨expr, ha, hc⟩ := bind_eq_ok_iff.mp hc
    obtain ⟨⟨o, ov⟩, hco, hc⟩ := bind_eq_ok_iff.mp hc
    cases hc
    rcases mem_append.mp hp with text | hp
    · exact absurd text (hl l)
    rcases mem_cons.mp hp with hh | ht
    · cases hh
      exact ⟨compileExpr_checked ha, fun hdr => mem_append_left _⟩
    · obtain ⟨hty, hr⟩ := ih la hco ht
      exact ⟨hty, fun hdr hre => mem_append_right _ (hr hdr hre)⟩
  | case4 fuel l c rest _ ih => exact ih hc hp

/-- A condition evaluates to a boolean, and an interpolation to a text, in exactly
the environments where the arguments it reaches fit. -/
theorem compiled_evaluates_iff (env : EvalEnv) :
    (∀ source predicate, Predicate.compile source = .ok predicate →
      ((∃ value, evalExpr env predicate.root = some value ∧ value.type = .bool) ↔
        Fits env predicate.root)) ∧ ∀ source template root, Template.compile source = .ok template →
      .expr root ∈ template.parts →
        ((∃ value, evalExpr env root = some value ∧ value.type = .str) ↔ Fits env root) := by
  refine ⟨fun source predicate hc => ?_, fun source template root hc hp => ?_⟩
  · obtain ⟨ha, _⟩ := Predicate.compile_checked hc
    exact (check_typed _ _ ha).settles.some_iff
  obtain ⟨⟨parts, v⟩, hs, last⟩ := bind_eq_ok_iff.mp hc
  cases last
  obtain ⟨ha, _⟩ := Template.compileParts_checked hs hp
  exact (check_typed _ _ ha).settles.some_iff

namespace Mistyped

def request : EvalEnv := ⟨RequestContext.default, "/a".toList, fun _ => false⟩

def evaluatesTo (type : ValueType) (root : Expr) : Bool :=
  (evalExpr request root).any fun value => value.type = type

theorem exists_of_any {Result : Type} {compiled : Except ConfigError Result} {test : Result → Bool}
    (hp : compiled.toOption.any test = true) :
    ∃ result, compiled = .ok result ∧ test result = true := by
  cases compiled with
  | error error => cases hp
  | ok result => exact ⟨result, rfl, hp⟩

theorem evaluates_of_any {type : ValueType} {r : Expr} (hp : evaluatesTo type r = true) :
    ∃ v, evalExpr request r = some v ∧ v.type = type := by
  simpa [evaluatesTo, Option.any_eq_true] using hp

/-- The check lets a number stand where a string method reads a string. -/
theorem accepted_without_value :
    ∃ predicate, Predicate.compile "path.startsWith(5)".toList = .ok predicate ∧
      evalExpr request predicate.root = none := by
  obtain ⟨predicate, hc, none⟩ := exists_of_any
    (show ((Predicate.compile "path.startsWith(5)".toList).toOption.any fun predicate =>
      (evalExpr request predicate.root).isNone) = true by decide +kernel)
  exact ⟨predicate, hc, Option.isNone_iff_eq_none.mp none⟩

/-- The same argument does no harm after a side that decides. -/
theorem guarded_fits :
    (∃ predicate, Predicate.compile "path.startsWith('/a') || path.startsWith(5)".toList =
      .ok predicate ∧ Fits request predicate.root) ∧
    ∃ template root, Template.compile "$\x7bpath\x7d".toList = .ok template ∧
      .expr root ∈ template.parts ∧ Fits request root := by
  constructor
  · obtain ⟨predicate, hc, hp⟩ := exists_of_any
      (show ((Predicate.compile "path.startsWith('/a') || path.startsWith(5)".toList).toOption.any
        fun predicate => evaluatesTo .bool predicate.root) = true by decide +kernel)
    exact ⟨predicate, hc, ((compiled_evaluates_iff request).1 _ _ hc).mp (evaluates_of_any hp)⟩
  obtain ⟨template, hc, hp⟩ := exists_of_any
    (show ((Template.compile "$\x7bpath\x7d".toList).toOption.any fun template =>
      template.parts.any fun
        | .expr root => evaluatesTo .str root
        | .lit _ => false) = true by decide +kernel)
  obtain ⟨p, hi, hp⟩ := List.any_eq_true.mp hp
  cases p with
  | lit text => cases hp
  | expr root =>
    exact ⟨template, root, hc, hi,
      ((compiled_evaluates_iff request).2 _ _ _ hc hi).mp (evaluates_of_any hp)⟩

end Mistyped

end BoatRamp.Routing
