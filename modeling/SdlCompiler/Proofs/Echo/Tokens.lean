import SdlCompiler.Proofs.Echo.Echoed

/-!
# The tokens of an echo

The tokens of the text that a file is written as, and what the grammar makes of them: the document
that states the file as its text says. Each part of a definition is read back before whatever
follows it in such a text. A description that has no value does not stop the grammar, but leaves a
defect behind.
-/

namespace SdlCompiler.Echo

open Document Document.Rule Document.Grammar Schema

/-! ## Types -/

def nonNullTokens (nonNull : Bool) : List Token :=
  if nonNull then [.punctuator '!'] else []

def typeTokens : Schema.TypeRef → List Token
  | .named nonNull type => .name type.name :: nonNullTokens nonNull
  | .list nonNull element =>
    .punctuator '[' :: (typeTokens element ++ .punctuator ']' :: nonNullTokens nonNull)

/-- The marks after the name of a type. -/
def typeSuffix : Schema.TypeRef → List Token
  | .named nonNull _ => nonNullTokens nonNull
  | .list nonNull element => typeSuffix element ++ .punctuator ']' :: nonNullTokens nonNull

/-- The opening brackets stand before the name, the marks after it. -/
theorem typeTokens_eq (t : Schema.TypeRef) :
    typeTokens t = List.replicate t.depth (.punctuator '[') ++
      (.name t.innermost.name :: typeSuffix t) := by
  induction t with
  | named nonNull type => rfl
  | list nonNull element ih =>
    rw [typeTokens, ih, TypeRef.depth, List.replicate_succ, List.cons_append, List.append_assoc]
    rfl

theorem isTypeMark_typeSuffix (t : Schema.TypeRef) : ∀ token ∈ typeSuffix t, isTypeMark token := by
  have nonNull : ∀ nonNull, ∀ token ∈ nonNullTokens nonNull, isTypeMark token := by decide
  induction t with
  | named isNonNull type => exact nonNull isNonNull
  | list isNonNull element ih =>
    rw [typeSuffix, List.forall_mem_append, List.forall_mem_cons]
    exact ⟨ih, rfl, nonNull isNonNull⟩

theorem count_typeSuffix (t : Schema.TypeRef) :
    (typeSuffix t).count (.punctuator ']') = t.depth := by
  have nonNull : ∀ nonNull, (nonNullTokens nonNull).count (.punctuator ']') = 0 := by decide
  induction t with
  | named isNonNull type => exact nonNull isNonNull
  | list isNonNull element ih =>
    rw [typeSuffix, List.count_append, List.count_cons_self, ih, nonNull]
    rfl

/-- The marks make the type from its name. -/
theorem foldl_typeSuffix (t : Schema.TypeRef) :
    (typeSuffix t).foldl wrap (.named t.innermost.name) = t.toDocument := by
  induction t with
  | named isNonNull type => cases isNonNull <;> rfl
  | list isNonNull element ih =>
    rw [typeSuffix, List.foldl_append]
    show List.foldl wrap ((typeSuffix element).foldl wrap (.named element.innermost.name)) _ = _
    rw [ih]
    cases isNonNull <;> rfl

theorem accepts_typeMarks {t : Schema.TypeRef} (depth : t.depth ≤ 15) :
    Accepts typeMarks (typeSuffix t) (typeSuffix t) (Starts fun token => !isTypeMark token) := by
  intro rest limit defect starts _
  have stop : rest.takeWhile isTypeMark = [] ∧ rest.dropWhile isTypeMark = rest := by
    cases rest with
    | nil => exact ⟨rfl, rfl⟩
    | cons token rest =>
      have noMark : ¬isTypeMark token = true := by simpa using starts token rfl
      exact ⟨List.takeWhile_cons_of_neg noMark, List.dropWhile_cons_of_neg noMark⟩
  have marks := isTypeMark_typeSuffix t
  simp only [typeMarks]
  rw [List.takeWhile_append_of_pos marks, List.dropWhile_append_of_pos marks, stop.1, stop.2,
    List.append_nil, if_pos]
  rw [count_typeSuffix]
  exact depth

theorem accepts_typeExpr {t : Schema.TypeRef} (depth : t.depth ≤ 15) :
    Accepts typeExpr (typeTokens t) t.toDocument (Starts fun token => !isTypeMark token) := by
  have brackets : Accepts openingBrackets (List.replicate t.depth (.punctuator '['))
      () (Starts fun token => token ≠ .punctuator '[') := by
    intro rest limit defect starts _
    have stop : rest.dropWhile (· = .punctuator '[') = rest := by
      cases rest with
      | nil => rfl
      | cons token rest => exact List.dropWhile_cons_of_neg (by simpa using starts token rfl)
    simp only [openingBrackets]
    rw [List.dropWhile_append_of_pos (by simp), stop]
  -- Brackets are not matched one by one: the opening ones are passed over, the others counted.
  rw [typeTokens_eq]
  refine brackets.bind ?_ fun rest _ token first => ?_
  · refine (accepts_name t.innermost.name).bind ?_ fun _ _ => trivial
    exact (accepts_typeMarks depth).last (congrArg pure (foldl_typeSuffix t))
  · cases first
    rfl

/-! ## Values -/

mutual

def valueTokens : Schema.Value → List Token
  | .variable name => [.punctuator '$', .name name]
  | .int n => [.int (toString n.toInt)]
  | .float x => [.float (String.ofList x.fixed)]
  | .string text => [.quoted (text.toList.flatMap Text.Quoted.escape)]
  | .boolean true => [.name "true"]
  | .boolean false => [.name "false"]
  | .null => [.name "null"]
  | .enum symbol => [.name symbol]
  | .list items => .punctuator '[' :: (itemTokens items ++ [.punctuator ']'])
  | .object fields => .punctuator '\x7b' :: (fieldTokens fields ++ [.punctuator '\x7d'])

def itemTokens : List Schema.Value → List Token
  | [] => []
  | item :: rest => valueTokens item ++ itemTokens rest

def fieldTokens : List (String × Schema.Value) → List Token
  | [] => []
  | (name, value) :: rest =>
    .name name :: .punctuator ':' :: (valueTokens value ++ fieldTokens rest)

end

/-- A name and a value, as an argument or in an object. -/
def entryTokens (entry : String × Schema.Value) : List Token :=
  .name entry.1 :: .punctuator ':' :: valueTokens entry.2

theorem valueTokens_list (items : List Schema.Value) :
    valueTokens (.list items) =
      .punctuator '[' :: (items.flatMap valueTokens ++ [.punctuator ']']) := by
  have all : itemTokens items = items.flatMap valueTokens := by
    induction items with
    | nil => rfl
    | cons item rest ih => rw [itemTokens, ih, List.flatMap_cons]
  rw [valueTokens, all]

theorem valueTokens_object (fields : List (String × Schema.Value)) :
    valueTokens (.object fields) =
      .punctuator '\x7b' :: (fields.flatMap entryTokens ++ [.punctuator '\x7d']) := by
  have all : fieldTokens fields = fields.flatMap entryTokens := by
    induction fields with
    | nil => rfl
    | cons field rest ih =>
      rw [fieldTokens, ih, List.flatMap_cons]
      rfl
  rw [valueTokens, all]

/-- A value may follow another one, and closes no list. -/
theorem meets_valueTokens {v : Schema.Value} (finite : v.Finite) :
    Meets (fun token => mayFollowValue token && token ≠ .punctuator ']') (valueTokens v) := by
  cases finite with
  | boolean value => cases value <;> exact ⟨_, rfl, by decide⟩
  | int | float | string | enum => exact ⟨_, rfl, by simp [mayFollowValue]⟩
  | null | list | object => exact ⟨_, rfl, by decide⟩

/-- What a value is read back as. -/
def readBack (v : Schema.Value) : Document.Value :=
  v.echoed.toDocument

theorem readBack_list (items : List Schema.Value) :
    readBack (.list items) = .list (items.map readBack) := by
  rw [readBack, Schema.Value.echoed, Schema.Value.toDocument, SdlCompiler.Value.map_list,
    SdlCompiler.Value.map_list, List.map_map]
  rfl

theorem readBack_object (fields : List (String × Schema.Value)) :
    readBack (.object fields) = .object (fields.map fun field => (field.1, readBack field.2)) := by
  rw [readBack, Schema.Value.echoed, Schema.Value.toDocument, SdlCompiler.Value.map_object,
    SdlCompiler.Value.map_object, List.map_map]
  rfl

/-- A value that one token gives at once. -/
theorem accepts_token {α : Type} {token : Token} {next : Token → Rule α} {a : α}
    {follow : List Token → Prop} (proper : isProper token = true) (ends : next token = pure a) :
    Accepts (Rule.next >>= next) [token] a follow :=
  ((accepts_next proper).last ends).mono fun _ _ => trivial

/-- A value that one token gives when the next one is known. -/
theorem accepts_settled {α : Type} {token : Token} {next : Token → Rule α} {a : α}
    (proper : isProper token = true) (ends : next token = settle (.ok a)) :
    Accepts (Rule.next >>= next) [token] a (Meets mayFollowValue) := by
  have second : Accepts (next token) [] a (Meets mayFollowValue) := by
    rw [ends]
    exact accepts_settle a
  exact (accepts_next proper).bind second fun _ _ => trivial

/-- A value that goes on after its first token. -/
theorem accepts_open {α : Type} {token : Token} {tokens : List Token} {next : Token → Rule α}
    {rule : Rule α} {a : α} {follow : List Token → Prop} (proper : isProper token = true)
    (goes : next token = rule) (accepts : Accepts rule tokens a anything) :
    Accepts (Rule.next >>= next) (token :: tokens) a follow := by
  subst goes
  exact ((accepts_next proper).bind accepts fun _ _ => trivial).mono fun _ _ => trivial

/-- A name and a value, whatever rule reads the value. -/
theorem accepts_entry {rule : Rule Document.Value} {entry : String × Schema.Value}
    (accepts : Accepts rule (valueTokens entry.2) (readBack entry.2) (Meets mayFollowValue)) :
    Accepts (do
      let key ← name
      expect (.punctuator ':')
      return (key, ← rule)) (entryTokens entry) (entry.1, readBack entry.2)
      (Meets mayFollowValue) := by
  refine (accepts_name entry.1).bind ?_ fun _ _ => trivial
  exact (accepts_expect rfl).bind (accepts.last rfl) fun _ _ => trivial

theorem meets_entryTokens (entry : String × Schema.Value) {c : Char} :
    Meets (fun token => mayFollowValue token && token ≠ .punctuator c) (entryTokens entry) :=
  ⟨_, rfl, by simp [mayFollowValue]⟩

theorem length_le_of_mem {α β : Type} {f : α → List β} {xs : List α} {x : α} (member : x ∈ xs) :
    (f x).length ≤ (xs.flatMap f).length := by
  obtain ⟨before, after, rfl⟩ := List.append_of_mem member
  simp only [List.flatMap_append, List.flatMap_cons, List.length_append]
  omega

theorem accepts_valueWithin {v : Schema.Value} (finite : v.Finite) {depth : Nat}
    (enough : (valueTokens v).length ≤ depth + 1) :
    Accepts (valueWithin (depth + 1)) (valueTokens v) (readBack v) (Meets mayFollowValue) := by
  -- A value inside of another has fewer tokens, so one level less is enough for it.
  induction finite generalizing depth with
  | int n =>
    refine accepts_settled rfl (congrArg settle ?_)
    rw [integer, Numeric.int64?_toString]
    rfl
  | @float x finite =>
    refine accepts_token rfl (congrArg pure ?_)
    rw [float, String.toList_ofList, (Numeric.Binary64.read?_fixed_eq finite).1]
    rfl
  | @string text basic =>
    refine accepts_settled rfl (congrArg settle ?_)
    rw [quoted, basic.escaped.1]
    dsimp only
    rw [String.ofList_toList]
    rfl
  | boolean value => cases value <;> exact accepts_token rfl rfl
  | null => exact accepts_token rfl rfl
  | @enum symbol isName free =>
    simp only [reserved, List.mem_cons, List.not_mem_nil, or_false, not_or] at free
    refine accepts_token rfl (?_ : _ = pure (SdlCompiler.Value.enum symbol))
    split <;> simp_all
  | @list items finite ih =>
    rw [valueTokens_list] at enough ⊢
    rw [readBack_list]
    have each : ∀ item ∈ items, IsItem (valueWithin depth) (.punctuator ']') mayFollowValue
        (valueTokens item) (readBack item) := by
      intro item member
      have meets := meets_valueTokens (finite item member)
      have positive := meets.length_pos
      have bound := length_le_of_mem (f := valueTokens) member
      simp only [List.length_cons, List.length_append, List.length_nil] at enough
      obtain ⟨inner, rfl⟩ : ∃ inner, depth = inner + 1 := ⟨depth - 1, by omega⟩
      exact ⟨meets, ih item member (by omega)⟩
    have all := (accepts_itemsUpTo rfl rfl each).map SdlCompiler.Value.list
    exact accepts_open rfl rfl all
  | @object fields isName finite ih =>
    rw [valueTokens_object] at enough ⊢
    rw [readBack_object]
    have each : ∀ field ∈ fields, IsItem (do
        let key ← name
        expect (.punctuator ':')
        return (key, ← valueWithin depth)) (.punctuator '\x7d') mayFollowValue
        (entryTokens field) (field.1, readBack field.2) := by
      intro field member
      have positive := (meets_valueTokens (finite field member)).length_pos
      have bound := length_le_of_mem (f := entryTokens) member
      simp only [entryTokens, List.length_cons, List.length_append, List.length_nil] at enough bound
      obtain ⟨inner, rfl⟩ : ∃ inner, depth = inner + 1 := ⟨depth - 1, by omega⟩
      exact ⟨meets_entryTokens field, accepts_entry (ih field member (by omega))⟩
    have all := (accepts_itemsUpTo rfl rfl each).map SdlCompiler.Value.object
    exact accepts_open rfl rfl all

theorem accepts_value {v : Schema.Value} (finite : v.Finite) :
    Accepts value (valueTokens v) (readBack v) (Meets mayFollowValue) := by
  intro rest limit defect meets enough
  have positive := (meets_valueTokens finite).length_pos
  rw [List.length_append] at enough
  obtain ⟨depth, rfl⟩ : ∃ depth, limit = depth + 1 := ⟨limit - 1, by omega⟩
  exact accepts_valueWithin finite (by omega) rest (depth + 1) defect meets (by simpa using enough)

/-! ## Directives -/

def directiveTokens (d : Schema.Directive) : List Token :=
  .name d.name ::
    if d.arguments = [] then []
    else .punctuator '(' :: (d.arguments.flatMap entryTokens ++ [.punctuator ')'])

def directivesTokens (ds : List Schema.Directive) : List Token :=
  ds.flatMap fun d => .punctuator '@' :: directiveTokens d

theorem isItem_argument {a : String × Schema.Value} (finite : a.2.Finite) :
    IsItem argument (.punctuator ')') mayFollowValue (entryTokens a) (a.1, readBack a.2) :=
  ⟨meets_entryTokens a, accepts_entry (accepts_value finite)⟩

/-- A directive ends before what opens no arguments. -/
theorem accepts_directive {d : Schema.Directive} (written : d.Written Value.Finite) :
    Accepts directive (directiveTokens d) (d.map readBack)
      (Starts fun token => token ≠ .punctuator '(') := by
  obtain ⟨directiveName, arguments⟩ := d
  refine (accepts_name directiveName).bind ?_ fun _ _ => trivial
  cases arguments with
  | nil => exact .withoutMark (.pure _) fun rest starts => starts
  | cons a arguments =>
    have each := fun b member => isItem_argument (written.arguments b member).2
    refine (?_ : Accepts _ _ _ anything).mono fun _ _ => trivial
    exact .afterMark rfl ((accepts_itemsUpTo rfl rfl each).last rfl)

/-- Directives end before what begins no other and opens no arguments. -/
theorem accepts_directives {ds : List Schema.Directive}
    (written : ∀ d ∈ ds, d.Written Value.Finite) :
    Accepts directives (directivesTokens ds) (ds.map (Directive.map readBack))
      (Starts fun token => token ≠ .punctuator '(' && token ≠ .punctuator '@') :=
  accepts_eachAfter rfl rfl fun d member => accepts_directive (written d member)

/-! ## Parts of definitions -/

/-- What may stand after a field, an argument or the value of an enum. -/
def endsItem : Token → Bool
  | .name _ | .block _ => true
  | token => token = .punctuator ')' || token = .punctuator '\x7d'

theorem endsItem_cases {token : Token} (ends : endsItem token = true) :
    mayFollowValue token = true ∧ isTypeMark token = false ∧
      ∀ c ∈ ['(', '@', '=', '\x7b'], token ≠ .punctuator c := by
  cases token with
  | name text | block raw => exact ⟨rfl, rfl, by simp⟩
  | punctuator c =>
    simp only [endsItem, Token.punctuator.injEq, Bool.or_eq_true, decide_eq_true_eq] at ends
    rcases ends with rfl | rfl <;> exact ⟨rfl, rfl, by simp⟩
  | int | float | quoted | invalid | unfinished | crash => cases ends

def defaultTokens (default : Option Schema.Value) : List Token :=
  default.elim [] fun v => .punctuator '=' :: valueTokens v

def inputValueTokens (v : Schema.InputValue) : List Token :=
  .name v.name :: .punctuator ':' ::
    (typeTokens v.type ++ (defaultTokens v.default ++ directivesTokens v.directives))

/-- The token of a description, if it is written. -/
def descriptionTokens (margin : String) (description : Option String) : List Token :=
  if description.getD "" = "" then [] else [.block (descriptionContents margin description)]

/-- What keeps the text from being read when the description has no value. -/
def descriptionFlaw (margin : String) (description : Option String) : Option Defect :=
  if description.getD "" = "" then none
  else match block (descriptionContents margin description) with
    | .ok _ => none
    | .error fault => some fault

def isName : Token → Bool
  | .name _ => true
  | _ => false

theorem accepts_noDescription : Accepts description [] none (Starts isName) := by
  intro rest limit defect starts _
  cases rest with
  | nil => rfl
  | cons token rest =>
    have isName := starts token rfl
    cases token with
    | name text => rfl
    | punctuator | int | float | quoted | block | invalid | unfinished | crash => cases isName

/-- A description is taken even where it has no value. -/
theorem description_eq (margin : String) (text : Option String) {rest : List Token}
    (starts : Starts isName rest) {limit : Nat}
    (enough : (descriptionTokens margin text ++ rest).length ≤ limit) (defect : Option Defect) :
    description ⟨descriptionTokens margin text ++ rest, limit, defect⟩ =
      .ok (rereadDescription margin text,
        ⟨rest, limit, defect <|> descriptionFlaw margin text⟩) := by
  unfold descriptionTokens rereadDescription descriptionFlaw at *
  split
  · next blank =>
    rw [if_pos blank] at enough
    rw [accepts_noDescription rest limit defect starts enough]
    cases defect <;> rfl
  · simp only [description, List.singleton_append]
    cases block (descriptionContents margin text) with
    | ok value => cases defect <;> rfl
    | error fault => rfl

/-- What a written description is read as: only one with few characters has no value. -/
theorem block_description {margin : String} (spaces : ∀ c ∈ margin.toList, c = ' ')
    (text : Option String) :
    block (descriptionContents margin text) =
      if Text.trim (text.getD "").toList ≠ [] ∧
          Text.byteLength (descriptionContents margin text) < 6 then
        .error (.blockString .tooShort)
      else .ok (String.ofList (Text.BlockString.reread (text.getD "").toList)) := by
  rw [block, descriptionContents, Text.BlockString.value_contents spaces]
  split_ifs <;> rfl

/-- With a margin, there are enough characters. -/
theorem descriptionFlaw_indent (text : Option String) : descriptionFlaw indent text = none := by
  unfold descriptionFlaw
  split
  · rfl
  · rw [block_description spaces_indent, if_neg]
    rintro ⟨nonempty, short⟩
    have long := Text.BlockString.le_byteLength_contents indent.toList nonempty
    exact Nat.not_lt.2 long short

theorem accepts_description (text : Option String) :
    Accepts description (descriptionTokens indent text) (rereadDescription indent text)
      (Starts isName) := by
  intro rest limit defect starts enough
  rw [description_eq indent text starts enough, descriptionFlaw_indent]
  cases defect <;> rfl

/-- Tokens that begin with a description, or with the name after it. -/
theorem meets_description {p : Token → Bool} {margin : String} {description : Option String}
    {text : String} {rest : List Token} (blocks : ∀ raw, p (.block raw) = true)
    (names : p (.name text) = true) :
    Meets p (descriptionTokens margin description ++ .name text :: rest) := by
  unfold descriptionTokens
  split
  · exact ⟨_, rfl, names⟩
  · exact ⟨_, rfl, blocks _⟩

/-- Tokens after directives, which begin with an at sign if there are any. -/
theorem starts_directives {p : Token → Bool} (marks : p (.punctuator '@') = true)
    (ds : List Schema.Directive) {rest : List Token} (starts : Starts p rest) :
    Starts p (directivesTokens ds ++ rest) :=
  starts_marked marks starts

theorem meets_directives {p : Token → Bool} (marks : p (.punctuator '@') = true)
    (ds : List Schema.Directive) {rest : List Token} (meets : Meets p rest) :
    Meets p (directivesTokens ds ++ rest) := by
  cases ds with
  | nil => exact meets
  | cons d ds => exact ⟨_, rfl, marks⟩

theorem endsItem_directives {rest : List Token} (meets : Meets endsItem rest) :
    Starts (fun token => token ≠ .punctuator '(' && token ≠ .punctuator '@') rest := by
  refine meets.starts fun token ends => ?_
  obtain ⟨-, -, others⟩ := endsItem_cases ends
  simp [others '(' (by decide), others '@' (by decide)]

/-- What follows a type, be it a default, directives or the end. -/
theorem starts_afterType {p : Token → Bool} (isDefault : p (.punctuator '=') = true)
    (isDirective : p (.punctuator '@') = true) (default : Option Schema.Value)
    (ds : List Schema.Directive) {rest : List Token} (starts : Starts p rest) :
    Starts p (defaultTokens default ++ directivesTokens ds ++ rest) := by
  cases default with
  | none => exact starts_directives isDirective ds starts
  | some v =>
    intro token first
    cases first
    exact isDefault

/-- An argument, which is written without its description, or the field of an input object. -/
theorem accepts_inputValue {T : Schema.TypeRef → Prop} (depth : ∀ t, T t → t.depth ≤ 15)
    {v : Schema.InputValue} (written : v.Written T Value.Finite) {opening : List Token}
    {text : Option String} (described : Accepts description opening text (Starts isName)) :
    Accepts inputValue (opening ++ inputValueTokens v)
      { v.map (fun _ => none) TypeRef.toDocument readBack with description := text }
      (Meets endsItem) := by
  have applied := (accepts_directives written.directives).mono fun _ => endsItem_directives
  refine described.bind ?_ fun rest _ token first => ?_
  · refine (accepts_name v.name).bind ?_ fun _ _ => trivial
    refine (accepts_expect rfl).bind ?_ fun _ _ => trivial
    refine (accepts_typeExpr (depth _ written.type)).bind ?_ fun rest meets => ?_
    · -- Without a default the equals sign is missing, with one it is taken.
      cases isDefault : v.default with
      | none =>
        have nothing : Accepts (pure none : Rule (Option Document.Value)) [] none anything :=
          .pure none
        refine (accepts_accept_other (.punctuator '=')).silent
          (nothing.silent (applied.last ?_) fun _ _ => trivial) fun rest meets => ?_
        · rw [InputValue.map, isDefault]
          rfl
        · refine starts_directives rfl v.directives (meets.starts fun token ends => ?_)
          simp [(endsItem_cases ends).2.2 '=' (by decide)]
      | some x =>
        have given := (accepts_value (written.default x isDefault)).map some
        refine (accepts_accept rfl).bind (given.bind (applied.last ?_) fun rest meets => ?_)
          fun _ _ => trivial
        · rw [InputValue.map, isDefault]
          rfl
        · exact meets_directives rfl v.directives (meets.mono fun token ends =>
            (endsItem_cases ends).1)
    · refine starts_afterType rfl rfl _ _ (meets.starts fun token ends => ?_)
      simp [(endsItem_cases ends).2.1]
  · cases first
    rfl

theorem isItem_inputValue {T : Schema.TypeRef → Prop} (depth : ∀ t, T t → t.depth ≤ 15)
    {v : Schema.InputValue} (written : v.Written T Value.Finite) (c : Char) :
    IsItem inputValue (.punctuator c) endsItem (inputValueTokens v)
      (v.map (fun _ => none) TypeRef.toDocument readBack) :=
  ⟨⟨_, rfl, by simp [endsItem]⟩, accepts_inputValue depth written accepts_noDescription⟩

def argumentsTokens (vs : List Schema.InputValue) : List Token :=
  if vs = [] then []
  else .punctuator '(' :: (vs.flatMap inputValueTokens ++ [.punctuator ')'])

theorem accepts_arguments {T : Schema.TypeRef → Prop} (depth : ∀ t, T t → t.depth ≤ 15)
    {vs : List Schema.InputValue} (written : ∀ v ∈ vs, v.Written T Value.Finite) :
    Accepts arguments (argumentsTokens vs)
      (vs.map (InputValue.map (fun _ => none) TypeRef.toDocument readBack))
      (Starts fun token => token ≠ .punctuator '(') := by
  cases vs with
  | nil => exact .withoutMark (.pure _) fun rest starts => starts
  | cons v vs =>
    have each := fun w member => isItem_inputValue depth (written w member) ')'
    refine (?_ : Accepts _ _ _ anything).mono fun _ _ => trivial
    exact .afterMark rfl (accepts_someItemsUpTo rfl rfl each)

def inputFieldTokens (v : Schema.InputValue) : List Token :=
  descriptionTokens indent v.description ++ inputValueTokens v

theorem accepts_inputField {T : Schema.TypeRef → Prop} (depth : ∀ t, T t → t.depth ≤ 15)
    {v : Schema.InputValue} (written : v.Written T Value.Finite) :
    Accepts inputValue (inputFieldTokens v)
      (v.map (rereadDescription indent) TypeRef.toDocument readBack) (Meets endsItem) :=
  accepts_inputValue depth written (accepts_description v.description)

def fieldDefinitionTokens (f : Schema.Field) : List Token :=
  descriptionTokens indent f.description ++ .name f.name :: (argumentsTokens f.arguments ++
    .punctuator ':' :: (typeTokens f.type ++ directivesTokens f.directives))

theorem accepts_field {T : Schema.TypeRef → Prop} (depth : ∀ t, T t → t.depth ≤ 15)
    {f : Schema.Field} (written : f.Written T Value.Finite) :
    Accepts field (fieldDefinitionTokens f)
      (f.redescribe (rereadDescription indent) TypeRef.toDocument readBack) (Meets endsItem) := by
  have applied := (accepts_directives written.directives).mono fun _ => endsItem_directives
  refine (accepts_description f.description).bind ?_ fun rest _ token first => ?_
  · refine (accepts_name f.name).bind ?_ fun _ _ => trivial
    refine (accepts_arguments depth written.arguments).bind ?_ fun rest _ token first => ?_
    · refine (accepts_expect rfl).bind ?_ fun _ _ => trivial
      refine (accepts_typeExpr (depth _ written.type)).bind (applied.last rfl) fun rest meets => ?_
      refine starts_directives rfl f.directives (meets.starts fun token ends => ?_)
      simp [(endsItem_cases ends).2.1]
    · cases first
      rfl
  · cases first
    rfl

def enumValueTokens (v : Schema.EnumValue) : List Token :=
  descriptionTokens indent v.description ++ .name v.name :: directivesTokens v.directives

theorem accepts_enumValue {v : Schema.EnumValue} (written : v.Written Value.Finite) :
    Accepts enumValue (enumValueTokens v) (v.map (rereadDescription indent) readBack)
      (Meets endsItem) := by
  have free := written.free
  simp only [reserved, List.mem_cons, List.not_mem_nil, or_false] at free
  have applied := (accepts_directives written.directives).mono fun _ => endsItem_directives
  refine (accepts_description v.description).bind ?_ fun rest _ token first => ?_
  · refine (accepts_name v.name).bind ?_ fun _ _ => trivial
    -- The words for booleans and null are refused as values.
    rw [if_neg free]
    exact applied.last rfl
  · cases first
    rfl

/-! ## Definitions -/

/-- What a definition may end before, if it is not the last: the description of another, or its
keyword. -/
def endsDefinition : Token → Bool
  | .name keyword => keyword ≠ "implements"
  | .block _ => true
  | _ => false

theorem endsDefinition_cases {token : Token} (ends : endsDefinition token = true) :
    token ≠ .name "implements" ∧ ∀ c, token ≠ .punctuator c := by
  cases token with
  | name text =>
    refine ⟨?_, by simp⟩
    simpa [endsDefinition] using ends
  | block raw => exact ⟨by simp, by simp⟩
  | punctuator | int | float | quoted | invalid | unfinished | crash => cases ends

/-- A definition ends where no punctuator goes on with it. -/
theorem starts_other {p : Token → Bool} {rest : List Token} (starts : Starts endsDefinition rest)
    (others : ∀ token, token ≠ .name "implements" → (∀ c, token ≠ .punctuator c) →
      p token = true) : Starts p rest := by
  intro token first
  obtain ⟨noImplements, noPunctuator⟩ := endsDefinition_cases (starts token first)
  exact others token noImplements noPunctuator

/-- Items between braces, or nothing where there are none. -/
def bodyTokens {γ : Type} (spell : γ → List Token) (xs : List γ) : List Token :=
  if xs.isEmpty then []
  else .punctuator '\x7b' :: (xs.flatMap spell ++ [.punctuator '\x7d'])

theorem accepts_body {α γ : Type} {rule : Rule α} {spell : γ → List Token} {result : γ → α}
    {xs : List γ} (begins : ∀ x ∈ xs, ∃ description text rest,
      spell x = descriptionTokens indent description ++ .name text :: rest)
    (items : ∀ x ∈ xs, Accepts rule (spell x) (result x) (Meets endsItem)) :
    Accepts (body rule) (bodyTokens spell xs) (xs.map result) (Starts endsDefinition) := by
  cases xs with
  | nil =>
    refine .withoutMark (.pure _) fun rest starts => starts_other starts fun token _ others => ?_
    simp [others]
  | cons x xs =>
    have each : ∀ y ∈ x :: xs, IsItem rule (.punctuator '\x7d') endsItem (spell y) (result y) := by
      intro y member
      obtain ⟨description, text, rest, first⟩ := begins y member
      rw [first]
      exact ⟨meets_description (by simp [endsItem]) (by simp [endsItem]), first ▸ items y member⟩
    refine (?_ : Accepts _ _ _ anything).mono fun _ _ => trivial
    exact .afterMark rfl (accepts_someItemsUpTo rfl rfl each)

theorem starts_body {γ : Type} {p : Token → Bool} {spell : γ → List Token} {xs : List γ}
    (opens : p (.punctuator '\x7b') = true) {rest : List Token} (starts : Starts p rest) :
    Starts p (bodyTokens spell xs ++ rest) := by
  cases xs with
  | nil => exact starts
  | cons x xs =>
    intro token first
    cases first
    exact opens

/-- The directives of a definition end before its body, or with it. -/
theorem starts_afterDirectives {γ : Type} {spell : γ → List Token} {xs : List γ}
    {rest : List Token} (starts : Starts endsDefinition rest) :
    Starts (fun token => token ≠ .punctuator '(' && token ≠ .punctuator '@')
      (bodyTokens spell xs ++ rest) :=
  starts_body rfl (starts_other starts fun token _ others => by simp [others])

def scalarTokens (s : Schema.Scalar) : List Token :=
  .name s.name :: directivesTokens s.directives

theorem accepts_scalar {s : Schema.Scalar} (written : s.Written Value.Finite) :
    Accepts (scalar (rereadDescription "" s.description)) (scalarTokens s)
      (s.map (rereadDescription "") readBack) (Starts endsDefinition) := by
  have applied := (accepts_directives written.directives).mono fun rest starts =>
    starts_other starts fun token _ noPunctuator => by simp [noPunctuator]
  exact (accepts_name s.name).bind (applied.last rfl) fun _ _ => trivial

def implementsTokens : List String → List Token
  | [] => []
  | n :: ns => .name "implements" :: .name n :: ns.flatMap fun m => [.punctuator '&', .name m]

theorem accepts_implements (ns : List String) :
    Accepts implements (implementsTokens ns) ns (Starts fun token =>
      token ≠ .name "implements" && token ≠ .punctuator '&') := by
  cases ns with
  | nil =>
    refine .withoutMark (.pure _) fun rest starts token first => ?_
    exact (Bool.and_eq_true_iff.1 (starts token first)).1
  | cons n ns =>
    refine .afterMark rfl (Accepts.mono (accepts_separated_name rfl (by simp)
      fun m _ => accepts_name m) fun rest starts token first => ?_)
    exact (Bool.and_eq_true_iff.1 (starts token first)).2

def compositeTokens (file : Schema.File) (c : Schema.Composite) : List Token :=
  .name c.name :: (implementsTokens (c.implements.map file.interfaceName) ++
    (directivesTokens c.directives ++ bodyTokens fieldDefinitionTokens c.fields))

theorem accepts_composite {T : Schema.TypeRef → Prop} (depth : ∀ t, T t → t.depth ≤ 15)
    {file : Schema.File} {R : Nat → Prop} {c : Schema.Composite}
    (written : c.Written R T Value.Finite) :
    Accepts (composite (rereadDescription "" c.description)) (compositeTokens file c)
      (c.redescribe (rereadDescription "") (rereadDescription indent) file.interfaceName
        TypeRef.toDocument readBack) (Starts endsDefinition) := by
  have filled := accepts_body (fun f _ => ⟨_, _, _, rfl⟩) fun f member =>
    accepts_field depth (written.fields f member)
  refine (accepts_name c.name).bind ?_ fun _ _ => trivial
  refine (accepts_implements _).bind ?_ fun rest starts => ?_
  · exact (accepts_directives written.directives).bind (filled.last rfl) fun rest starts =>
      starts_afterDirectives starts
  · rw [List.append_assoc]
    refine starts_directives rfl c.directives (starts_body rfl ?_)
    exact starts_other starts fun token noImplements others => by simp [noImplements, others]

def membersTokens : List String → List Token
  | [] => []
  | n :: ns => .punctuator '=' :: .name n :: ns.flatMap fun m => [.punctuator '|', .name m]

def unionTokens (u : Schema.Union) : List Token :=
  .name u.name :: (directivesTokens u.directives ++
    membersTokens (u.members.map NamedType.name))

theorem accepts_union {R : NamedType → Prop} {u : Schema.Union}
    (written : u.Written R Value.Finite) :
    Accepts (union (rereadDescription "" u.description)) (unionTokens u)
      (u.map (rereadDescription "") NamedType.name readBack) (Starts endsDefinition) := by
  refine (accepts_name u.name).bind ?_ fun _ _ => trivial
  obtain ⟨unionName, text, applied, members⟩ := u
  refine (accepts_directives written.directives).bind ?_ fun rest starts => ?_
  · cases members with
    | nil =>
      have nothing : Accepts (pure [] : Rule (List String)) [] [] (Starts endsDefinition) :=
        .pure []
      refine (accepts_accept_other (.punctuator '=')).silent (nothing.last rfl)
        fun rest starts => ?_
      exact starts_other starts fun token _ others => by simp [others]
    | cons r rs =>
      have named : Accepts (separated (.punctuator '|') name)
          (.name r.name :: (rs.map NamedType.name).flatMap fun m => [.punctuator '|', .name m])
          (r.name :: rs.map NamedType.name) (Starts fun token => token ≠ .punctuator '|') :=
        accepts_separated_name rfl (by simp) fun m _ => accepts_name m
      refine (accepts_accept rfl).bind (Accepts.last (named.mono fun rest starts => ?_) rfl)
        fun _ _ => trivial
      exact starts_other starts fun token _ others => by simp [others]
  · cases members with
    | nil => exact starts_other starts fun token _ others => by simp [others]
    | cons r rs =>
      intro token first
      cases first
      rfl

def enumTokens (e : Schema.Enum) : List Token :=
  .name e.name :: (directivesTokens e.directives ++ bodyTokens enumValueTokens e.values)

theorem accepts_enum {e : Schema.Enum} (written : e.Written Value.Finite) :
    Accepts (enum (rereadDescription "" e.description)) (enumTokens e)
      (e.redescribe (rereadDescription "") (rereadDescription indent) readBack)
      (Starts endsDefinition) := by
  have filled := accepts_body (fun v _ => ⟨_, _, _, rfl⟩) fun v member =>
    accepts_enumValue (written.values v member)
  refine (accepts_name e.name).bind ?_ fun _ _ => trivial
  exact (accepts_directives written.directives).bind (filled.last rfl) fun rest starts =>
    starts_afterDirectives starts

def inputObjectTokens (i : Schema.InputObject) : List Token :=
  .name i.name :: (directivesTokens i.directives ++ bodyTokens inputFieldTokens i.fields)

theorem accepts_inputObject {T : Schema.TypeRef → Prop} (depth : ∀ t, T t → t.depth ≤ 15)
    {i : Schema.InputObject} (written : i.Written T Value.Finite) :
    Accepts (inputObject (rereadDescription "" i.description)) (inputObjectTokens i)
      (i.redescribe (rereadDescription "") (rereadDescription indent) TypeRef.toDocument readBack)
      (Starts endsDefinition) := by
  have filled := accepts_body (fun v _ => ⟨_, _, _, rfl⟩) fun v member =>
    accepts_inputField depth (written.fields v member)
  refine (accepts_name i.name).bind ?_ fun _ _ => trivial
  exact (accepts_directives written.directives).bind (filled.last rfl) fun rest starts =>
    starts_afterDirectives starts

def placesTokens : List String → List Token
  | [] => []
  | n :: ns => .name n :: ns.flatMap fun m => [.punctuator '|', .name m]

def directiveDefinitionTokens (d : Schema.DirectiveDefinition) : List Token :=
  .punctuator '@' :: .name d.name :: (argumentsTokens d.arguments ++
    ((if d.repeatable then [.name "repeatable"] else []) ++
      .name "on" :: placesTokens (d.locations.map Location.name)))

theorem accepts_location (place : SdlCompiler.Location) :
    Accepts location [.name place.name] place.name anything := by
  obtain ⟨site, found⟩ := Site.exists_ofWord?_name place
  refine (accepts_name place.name).last ?_
  rw [found]
  dsimp only
  rw [Site.name_of_ofWord? found]

theorem accepts_places {places : List SdlCompiler.Location} (nonempty : places ≠ []) :
    Accepts (separated (.punctuator '|') location) (placesTokens (places.map Location.name))
      (places.map Location.name) (Starts endsDefinition) := by
  obtain ⟨place, places, rfl⟩ := List.exists_cons_of_ne_nil nonempty
  refine Accepts.mono (accepts_separated_name rfl (by simp) ?_) fun rest starts =>
    starts_other starts fun token _ others => by simp [others]
  rw [← List.map_cons (f := Location.name), List.forall_mem_map]
  exact fun l _ => accepts_location l

theorem accepts_directiveDefinition {T : Schema.TypeRef → Prop} (depth : ∀ t, T t → t.depth ≤ 15)
    {L : SdlCompiler.Location → Prop} {d : Schema.DirectiveDefinition}
    (written : d.Written T Value.Finite L) :
    Accepts (directiveDefinition (rereadDescription "" d.description))
      (directiveDefinitionTokens d)
      (d.redescribe (rereadDescription "") TypeRef.toDocument readBack Location.name)
      (Starts endsDefinition) := by
  have placed := accepts_places written.nonempty
  refine (accepts_expect rfl).bind ?_ fun _ _ => trivial
  refine (accepts_name d.name).bind ?_ fun _ _ => trivial
  refine (accepts_arguments depth written.arguments).bind ?_ fun rest _ token first => ?_
  · cases repeatable : d.repeatable with
    | true =>
      refine (accepts_accept rfl).bind ?_ fun _ _ => trivial
      refine (accepts_expect rfl).bind (placed.last ?_) fun _ _ => trivial
      rw [DirectiveDefinition.redescribe, DirectiveDefinition.map, repeatable]
    | false =>
      refine (accepts_accept_other (.name "repeatable")).silent ?_ fun rest _ token first => ?_
      · refine (accepts_expect rfl).bind (placed.last ?_) fun _ _ => trivial
        rw [DirectiveDefinition.redescribe, DirectiveDefinition.map, repeatable]
      · cases first
        decide
  · cases repeatable : d.repeatable <;> rw [repeatable] at first <;> cases first <;> rfl

/-! ## The schema block -/

def operationKeyword : Operation → String
  | .query => "query"
  | .mutation => "mutation"
  | .subscription => "subscription"

def rootTokens (root : Operation × String) : List Token :=
  [.name (operationKeyword root.1), .punctuator ':', .name root.2]

def schemaTokens (block : Document.SchemaBlock) (applied : List Schema.Directive) : List Token :=
  directivesTokens applied ++
    .punctuator '\x7b' :: (block.roots.flatMap rootTokens ++ [.punctuator '\x7d'])

/-- Roots that are listed by operation are each the first of its operation. -/
theorem firstRoots_roots (file : Schema.File) :
    firstRoots file.schemaDocument.roots = file.schemaDocument.roots := by
  simp only [Schema.File.schemaDocument]
  generalize file.schema.root? = root?
  cases query : root? .query <;> cases mutation : root? .mutation <;>
    cases subscription : root? .subscription <;>
    simp [firstRoots, query, mutation, subscription]

theorem accepts_schemaBlock {file : Schema.File}
    (written : ∀ d ∈ file.schema.directives, d.Written Value.Finite) :
    Accepts schemaBlock (schemaTokens file.schemaDocument file.schema.directives)
      { directives := file.schema.directives.map (Directive.map readBack),
        roots := file.schemaDocument.roots } anything := by
  have entries : ∀ entry ∈ file.schemaDocument.roots,
      IsItem root (.punctuator '\x7d') (fun _ => true) (rootTokens entry) (id entry) := by
    intro entry _
    obtain ⟨operation, n⟩ := entry
    refine ⟨⟨_, rfl, by simp⟩, ?_⟩
    have keyword : Accepts Grammar.operation [.name (operationKeyword operation)] operation
        anything := by
      cases operation <;> exact accepts_token rfl rfl
    refine keyword.bind ?_ fun _ _ => trivial
    refine (accepts_expect rfl).bind ?_ fun _ _ => trivial
    exact Accepts.last ((accepts_name n).mono fun _ _ => trivial) rfl
  have listed : Accepts roots _ _ _ := accepts_itemsUpTo rfl rfl entries
  refine (accepts_directives written).bind ?_ fun rest _ token first => ?_
  · refine (accepts_expect rfl).bind (listed.last ?_) fun _ _ => trivial
    rw [List.map_id, firstRoots_roots]
  · cases first
    rfl

/-! ## Documents -/

/-- The rest of a definition after its keyword. -/
def definitionAfter (defect : Option Defect) (text : Option String) (keyword : String) :
    Rule Definition :=
  match keyword with
  | "schema" => unkept defect (.schema <$> schemaBlock)
  | "extend" => unkept defect extension
  | "directive" => .directive <$> directiveDefinition text
  | keyword => typeDefinition text keyword

theorem definition_eq (before : Cursor) :
    Grammar.definition before =
      (do definitionAfter before.defect (← description) (← name) : Rule Definition) before :=
  rfl

/-- The tokens of a definition, what they are read as, and the defect that its description leaves
behind. -/
structure Part where
  tokens : List Token
  definition : Definition
  flaw : Option Defect

/-- Tokens that are read as a definition, before those of another or at the end. -/
structure IsDefinition (part : Part) : Prop where
  meets : Meets endsDefinition part.tokens
  accepts : ∀ rest limit defect, Starts endsDefinition rest →
    (part.tokens ++ rest).length ≤ limit →
    Grammar.definition ⟨part.tokens ++ rest, limit, defect⟩ =
      .ok (part.definition, ⟨rest, limit, defect <|> part.flaw⟩)

/-- A definition after its description and its keyword. -/
def describedPart (description : Option String) (keyword : String) (tokens : List Token)
    (definition : Definition) : Part :=
  { tokens := descriptionTokens "" description ++ .name keyword :: tokens,
    definition,
    flaw := descriptionFlaw "" description }

theorem isDefinition_described {description : Option String} {keyword : String}
    {tokens : List Token} {definition : Definition} (free : keyword ≠ "implements")
    (accepts : ∀ rest limit defect, Starts endsDefinition rest →
      (tokens ++ rest).length ≤ limit →
      definitionAfter defect (rereadDescription "" description) keyword
          ⟨tokens ++ rest, limit, defect <|> descriptionFlaw "" description⟩ =
        .ok (definition, ⟨rest, limit, defect <|> descriptionFlaw "" description⟩)) :
    IsDefinition (describedPart description keyword tokens definition) := by
  refine ⟨meets_description (fun _ => rfl) (by simpa [endsDefinition] using free), ?_⟩
  intro rest limit defect starts enough
  have named : Starts isName (.name keyword :: (tokens ++ rest)) := by
    intro token first
    cases first
    rfl
  simp only [describedPart, List.append_assoc, List.cons_append] at enough ⊢
  have less : (tokens ++ rest).length ≤ limit := by
    simp only [List.length_append, List.length_cons] at enough ⊢
    omega
  rw [definition_eq, run_bind (description_eq "" description named enough defect)]
  exact accepts rest limit defect starts less

/-- A definition of a type, after its keyword. -/
theorem isDefinition_type {description : Option String} {keyword : String} {tokens : List Token}
    {definition : Definition} (plain : keyword ∉ ["schema", "extend", "directive", "implements"])
    (accepts : Accepts (typeDefinition (rereadDescription "" description) keyword) tokens definition
      (Starts endsDefinition)) :
    IsDefinition (describedPart description keyword tokens definition) := by
  simp only [List.mem_cons, List.not_mem_nil, or_false, not_or] at plain
  refine isDefinition_described plain.2.2.2 fun rest limit defect => ?_
  have after : ∀ text, definitionAfter defect text keyword = typeDefinition text keyword := by
    intro text
    unfold definitionAfter
    split <;> simp_all
  rw [after]
  exact accepts rest limit _

theorem findSome?_flaw (part : Part) (parts : List Part) (defect : Option Defect) :
    (defect <|> (part :: parts).findSome? Part.flaw) =
      ((defect <|> part.flaw) <|> parts.findSome? Part.flaw) := by
  cases flaw : part.flaw <;> cases defect <;> simp [flaw]

/-- Definitions one after the other, to the end of the tokens. The first defect is kept. -/
theorem definitionsWithin_eq {parts : List Part} (nonempty : parts ≠ [])
    (all : ∀ part ∈ parts, IsDefinition part) {bound limit : Nat} (enough : parts.length ≤ bound)
    (limited : (parts.flatMap Part.tokens).length ≤ limit) (defect : Option Defect) :
    definitionsWithin bound ⟨parts.flatMap Part.tokens, limit, defect⟩ =
      .ok (parts.map Part.definition, ⟨[], limit, defect <|> parts.findSome? Part.flaw⟩) := by
  induction parts generalizing bound defect with
  | nil => exact absurd rfl nonempty
  | cons part parts ih =>
    obtain ⟨first, all⟩ := List.forall_mem_cons.1 all
    cases bound with
    | zero => cases enough
    | succ bound =>
      rw [List.flatMap_cons] at limited ⊢
      rw [definitionsWithin, findSome?_flaw]
      -- After a definition the rule looks whether there are more tokens.
      have looked : ∀ cursor : Cursor, peek cursor = .ok (cursor.tokens.head?, cursor) :=
        fun _ => rfl
      cases parts with
      | nil =>
        rw [List.flatMap_nil] at limited ⊢
        rw [run_bind (first.accepts [] limit defect (by simp [Starts]) limited),
          run_bind (looked _)]
        cases defect <;> cases part.flaw <;> rfl
      | cons next more =>
        obtain ⟨token, head, ends⟩ := (all next List.mem_cons_self).meets.append
          (more.flatMap Part.tokens)
        rw [← List.flatMap_cons] at head
        have starts : Starts endsDefinition ((next :: more).flatMap Part.tokens) := by
          intro other same
          rw [head] at same
          cases same
          exact ends
        have shorter : ((next :: more).flatMap Part.tokens).length ≤ limit := by
          rw [List.length_append] at limited
          exact Nat.le_of_add_left_le limited
        have others := ih (List.cons_ne_nil _ _) all (Nat.le_of_succ_le_succ enough) shorter
          (defect <|> part.flaw)
        rw [run_bind (first.accepts _ limit defect starts limited), run_bind (looked _)]
        dsimp only
        rw [head, if_neg (by simp), run_bind others]
        rfl

/-- Definitions are read as a document that holds them. -/
theorem document_eq {parts : List Part} (nonempty : parts ≠ [])
    (all : ∀ part ∈ parts, IsDefinition part) :
    Grammar.document ⟨parts.flatMap Part.tokens, (parts.flatMap Part.tokens).length, none⟩ =
      .ok (parts.map Part.definition,
        ⟨[], (parts.flatMap Part.tokens).length, parts.findSome? Part.flaw⟩) := by
  have count : parts.length ≤ (parts.flatMap Part.tokens).length :=
    length_le_flatMap fun part member => (all part member).meets.length_pos
  have read := definitionsWithin_eq nonempty all count (Nat.le_refl _) none
  obtain ⟨part, others, rfl⟩ := List.exists_cons_of_ne_nil nonempty
  obtain ⟨token, head, -⟩ := (all part List.mem_cons_self).meets.append
    (others.flatMap Part.tokens)
  rw [← List.flatMap_cons] at head
  have looked : ∀ cursor : Cursor, peek cursor = .ok (cursor.tokens.head?, cursor) := fun _ => rfl
  rw [Grammar.document, run_bind (looked _)]
  dsimp only
  rw [head, if_neg (by simp)]
  exact read

/-- The definitions of a file in the order of its text. -/
def fileParts (file : Schema.File) : List Part :=
  [describedPart none "schema" (schemaTokens file.schemaDocument file.schema.directives)
    (.schema { directives := file.schema.directives.map (Directive.map readBack),
               roots := file.schemaDocument.roots })] ++
  file.objects.map (fun c => describedPart c.description "type" (compositeTokens file c)
    (.object (c.redescribe (rereadDescription "") (rereadDescription indent) file.interfaceName
      TypeRef.toDocument readBack))) ++
  file.inputs.map (fun i => describedPart i.description "input" (inputObjectTokens i)
    (.input (i.redescribe (rereadDescription "") (rereadDescription indent) TypeRef.toDocument
      readBack))) ++
  file.interfaces.map (fun c => describedPart c.description "interface" (compositeTokens file c)
    (.interface (c.redescribe (rereadDescription "") (rereadDescription indent)
      file.interfaceName TypeRef.toDocument readBack))) ++
  file.unions.map (fun u => describedPart u.description "union" (unionTokens u)
    (.union (u.map (rereadDescription "") NamedType.name readBack))) ++
  file.directives.map (fun d =>
    describedPart d.description "directive" (directiveDefinitionTokens d)
      (.directive (d.redescribe (rereadDescription "") TypeRef.toDocument readBack
        Location.name))) ++
  file.scalars.map (fun s => describedPart s.description "scalar" (scalarTokens s)
    (.scalar (s.map (rereadDescription "") readBack))) ++
  file.enums.map (fun e => describedPart e.description "enum" (enumTokens e)
    (.enum (e.redescribe (rereadDescription "") (rereadDescription indent) readBack)))

theorem isDefinition_fileParts {file : Schema.File} (sound : file.Sound) :
    ∀ part ∈ fileParts file, IsDefinition part := by
  have depth : ∀ t, file.Knows t → t.depth ≤ 15 := fun t knows => knows.depth
  simp only [fileParts, List.forall_mem_append, List.forall_mem_map, List.forall_mem_singleton]
  refine ⟨⟨⟨⟨⟨⟨⟨?_, ?_⟩, ?_⟩, ?_⟩, ?_⟩, ?_⟩, ?_⟩, ?_⟩
  · refine isDefinition_described (by decide) fun rest limit defect _ enough => ?_
    have read := (accepts_schemaBlock sound.applied).map Definition.schema rest limit defect
      trivial enough
    have none : (defect <|> descriptionFlaw "" none) = defect := by cases defect <;> rfl
    rw [none]
    exact unkept_eq read defect
  · exact fun c member => isDefinition_type (by decide)
      ((accepts_composite depth (sound.objects c member)).map Definition.object)
  · exact fun i member => isDefinition_type (by decide)
      ((accepts_inputObject depth (sound.inputs i member)).map Definition.input)
  · exact fun c member => isDefinition_type (by decide)
      ((accepts_composite depth (sound.interfaces c member)).map Definition.interface)
  · exact fun u member => isDefinition_type (by decide)
      ((accepts_union (sound.unions u member)).map Definition.union)
  · exact fun d member => isDefinition_described (by decide) fun rest limit defect =>
      (accepts_directiveDefinition depth (sound.directives d member)).map Definition.directive
        rest limit _
  · exact fun s member => isDefinition_type (by decide)
      ((accepts_scalar (sound.scalars s member)).map Definition.scalar)
  · exact fun e member => isDefinition_type (by decide)
      ((accepts_enum (sound.enums e member)).map Definition.enum)

/-- The definitions that are read state the file as its text says. -/
theorem fileParts_toDocument (file : Schema.File) :
    (fileParts file).map Part.definition = file.reread.toDocument := by
  have values : Value.toDocument ∘ Value.echoed = readBack := rfl
  have roots : file.reread.schema.root? = file.schema.root? := by
    funext operation
    cases operation <;> rfl
  have composites : file.reread.compositeDocument ∘ Composite.redescribe (rereadDescription "")
        (rereadDescription indent) id id Value.echoed =
      Composite.redescribe (rereadDescription "") (rereadDescription indent) file.interfaceName
        TypeRef.toDocument readBack := by
    rw [Schema.File.compositeDocument, Schema.File.reread_interfaceName,
      Composite.map_comp_redescribe, values]
    rfl
  have inputs : InputObject.map id TypeRef.toDocument Value.toDocument ∘
        InputObject.redescribe (rereadDescription "") (rereadDescription indent) id Value.echoed =
      InputObject.redescribe (rereadDescription "") (rereadDescription indent) TypeRef.toDocument
        readBack := InputObject.map_comp_redescribe _ _
  have unions : Union.map id NamedType.name Value.toDocument ∘
        Union.map (rereadDescription "") id Value.echoed =
      Union.map (rereadDescription "") NamedType.name readBack := Union.map_comp
  have directives : DirectiveDefinition.map id TypeRef.toDocument Value.toDocument Location.name ∘
        DirectiveDefinition.redescribe (rereadDescription "") id Value.echoed id =
      DirectiveDefinition.redescribe (rereadDescription "") TypeRef.toDocument readBack
        Location.name := DirectiveDefinition.map_comp_redescribe _
  have scalars : Scalar.map id Value.toDocument ∘ Scalar.map (rereadDescription "") Value.echoed =
      Scalar.map (rereadDescription "") readBack := Scalar.map_comp
  have enums : Enum.map id Value.toDocument ∘
        Enum.redescribe (rereadDescription "") (rereadDescription indent) Value.echoed =
      Enum.redescribe (rereadDescription "") (rereadDescription indent) readBack :=
    Enum.map_comp_redescribe _ _
  have schema : file.reread.schemaDocument =
      { directives := file.schema.directives.map (Directive.map readBack),
        roots := file.schemaDocument.roots } := by
    simp only [Schema.File.schemaDocument, roots, Schema.File.reread_objectName]
    simp only [Schema.File.reread, Schema.File.redescribed, List.map_map, Directive.map_comp,
      values]
  have parts : ∀ {α β : Type} {xs : List α} {f : α → β} {g : α → α} {h : β → Definition}
      {k : α → β}, f ∘ g = k → (xs.map g).map (h ∘ f) = xs.map (h ∘ k) := by
    rintro α β xs f g h k rfl
    rw [List.map_map, Function.comp_assoc]
  simp only [fileParts, List.map_append, List.map_map]
  rw [Schema.File.toDocument, schema]
  refine congrArg₂ (· ++ ·) (congrArg₂ (· ++ ·) (congrArg₂ (· ++ ·) (congrArg₂ (· ++ ·)
    (congrArg₂ (· ++ ·) (congrArg₂ (· ++ ·) (congrArg₂ (· ++ ·) rfl ?_) ?_) ?_) ?_) ?_) ?_) ?_
  · exact (parts composites).symm
  · exact (parts inputs).symm
  · exact (parts composites).symm
  · exact (parts unions).symm
  · exact (parts directives).symm
  · exact (parts scalars).symm
  · exact (parts enums).symm

end SdlCompiler.Echo
