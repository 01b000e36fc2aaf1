/-!
The syntax tree of an ambient declaration module: types, patterns and the few expressions that
declarations hold, then class members, declarations and top level items. An identifier keeps the
place where it starts; a made-up identifier starts at 0.
-/
namespace AmbientBundle.Syntax

structure Ident where
  name : String
  start : Nat
deriving DecidableEq, Repr, Inhabited

/-- An identifier that no source text holds. -/
def Ident.made (name : String) : Ident := ⟨name, 0⟩

/-- A string literal: what it denotes, and its source text unless it is made up. -/
structure StrLit where
  value : String
  raw : Option String
deriving DecidableEq, Repr, Inhabited

def StrLit.made (value : String) : StrLit := ⟨value, none⟩

/-- A dotted name `A.B.C`; only its head is a reference. -/
structure EntityName where
  head : String
  tail : List String
deriving DecidableEq, Repr, Inhabited

def EntityName.mapHead (f : String → String) (n : EntityName) : EntityName :=
  { n with head := f n.head }

/-- A modifier of a mapped type: present, added with `+`, removed with `-`. -/
inductive Sign where
  | plain | plus | minus
deriving DecidableEq, Repr

/-- The name of an import attribute, an identifier or a string. -/
inductive AttrKey where
  | word (text : String)
  | str (lit : StrLit)
deriving DecidableEq, Repr

abbrev Attributes := List (AttrKey × StrLit)

inductive TypeOperator where
  | keyof | unique | readonly
deriving DecidableEq, Repr

mutual

/-- An expression. `hole`, `spread` and `keyed` stand only in lists of elements or properties. -/
inductive Expr where
  | ident (name : String)
  | word (text : String)
  | str (lit : StrLit)
  | template (chunks : List String) (parts : List Expr)
  | hole
  | spread (e : Expr)
  | keyed (key : Key) (value : Expr)
  | array (elems : List Expr)
  | object (props : List Expr)
  | paren (e : Expr)
  | member (obj : Expr) (optional : Bool) (name : String)
  | index (obj : Expr) (optional : Bool) (idx : Expr)
  | call (callee : Expr) (optional : Bool) (targs : List Ty) (args : List Expr)
  | construct (callee : Expr) (targs : List Ty) (args : Option (List Expr))
  | instantiate (e : Expr) (targs : List Ty)
  | unary (op : String) (e : Expr)
  | postfixed (e : Expr) (op : String)
  | binary (op : String) (left right : Expr)
  | cond (test yes no : Expr)
  | seq (es : List Expr)
  | cast (op : String) (e : Expr) (ty : Ty)

/-- The name of a member; only a computed one holds references. -/
inductive Key where
  | word (text : String)
  | str (lit : StrLit)
  | number (text : String)
  | hidden (text : String)
  | computed (e : Expr)

/-- A type. `labeled`, `optional` and `rest` stand only in tuples, `predicate` only as a result. -/
inductive Ty where
  | word (text : String)
  | str (lit : StrLit)
  | template (chunks : List String) (parts : List Ty)
  | ref (name : EntityName) (args : List Ty)
  | query (name : EntityName) (args : List Ty)
  | imported (arg : StrLit) (attrs : Option Attributes) (qualifier : Option EntityName)
      (args : List Ty)
  | importQuery (arg : StrLit) (attrs : Option Attributes) (qualifier : Option EntityName)
      (args : List Ty) (outer : List Ty)
  | array (elem : Ty)
  | tuple (elems : List Ty)
  | labeled (isRest : Bool) (label : String) (isOptional : Bool) (ty : Ty)
  | optional (ty : Ty)
  | rest (ty : Ty)
  | union (parts : List Ty)
  | inter (parts : List Ty)
  | conditional (check bound yes no : Ty)
  | infer (name : String) (bound : Option Ty)
  | paren (ty : Ty)
  | operator (op : TypeOperator) (ty : Ty)
  | indexed (obj idx : Ty)
  | mapped (readonly : Option Sign) (key : String) (domain : Ty) (rename : Option Ty)
      (optional : Option Sign) (value : Option Ty)
  | func (sig : Signature)
  | ctor (isAbstract : Bool) (sig : Signature)
  | record (members : List Member)
  | predicate (asserts : Bool) (subject : String) (ty : Option Ty)

/-- A type parameter; `mods` holds its `const`, `in` and `out`, in print order. -/
inductive TypeParam where
  | mk (mods : List String) (name : String) (bound : Option Ty) (default : Option Ty)

/-- A binding pattern with its type annotation. `hole` stands only in array patterns. -/
inductive Pat where
  | ident (id : Ident) (isOptional : Bool) (ann : Option Ty)
  | hole
  | array (elems : List Pat) (isOptional : Bool) (ann : Option Ty)
  | object (fields : List Field) (isOptional : Bool) (ann : Option Ty)
  | rest (arg : Pat) (ann : Option Ty)
  | assign (left : Pat) (right : Expr)

inductive Field where
  | keyed (key : Key) (value : Pat)
  | short (id : Ident) (default : Option Expr)
  | rest (arg : Pat)

/-- Type parameters, parameters and result: a scope of its own for the type parameters. -/
inductive Signature where
  | mk (tparams : List TypeParam) (params : List Pat) (result : Option Ty)

/-- A member of an interface or of a type literal. -/
inductive Member where
  | property (isReadonly : Bool) (key : Key) (isOptional : Bool) (ann : Option Ty)
  | getter (key : Key) (ann : Option Ty)
  | setter (key : Key) (param : Pat)
  | method (key : Key) (isOptional : Bool) (sig : Signature)
  | call (sig : Signature)
  | construct (sig : Signature)
  | index (isReadonly : Bool) (param : Pat) (ann : Option Ty)

end

instance : Inhabited Expr := ⟨.hole⟩
instance : Inhabited Ty := ⟨.word "any"⟩
instance : Inhabited Pat := ⟨.hole⟩

def TypeParam.name : TypeParam → String
  | .mk _ n _ _ => n

def Signature.tparams : Signature → List TypeParam
  | .mk ts _ _ => ts

/-- The names that a list of type parameters binds. -/
def typeParamNames (ts : List TypeParam) : List String := ts.map TypeParam.name

/-- `async` and `*` of a function or method. -/
structure FnMods where
  isAsync : Bool
  isGenerator : Bool
deriving DecidableEq, Repr, Inhabited

structure Func where
  mods : FnMods
  sig : Signature

inductive Access where
  | priv | prot | pub
deriving DecidableEq, Repr

inductive MethodKind where
  | method | getter | setter
deriving DecidableEq, Repr

/-- The modifiers of a class member. -/
structure MemberMods where
  declare : Bool
  access : Option Access
  isStatic : Bool
  isAbstract : Bool
  isOverride : Bool
  isReadonly : Bool
deriving DecidableEq, Repr, Inhabited

/-- A constructor's parameter; one with a modifier is a property as well. -/
structure CtorParam where
  access : Option Access
  isOverride : Bool
  isReadonly : Bool
  pat : Pat

/-- What stands behind the name of a property: `?`, `!` or neither. -/
inductive PropMark where
  | plain | optional | definite
deriving DecidableEq, Repr

inductive ClassMember where
  | ctor (mods : MemberMods) (isOptional : Bool) (params : List CtorParam)
  | method (mods : MemberMods) (fn : FnMods) (kind : MethodKind) (key : Key) (isOptional : Bool)
      (sig : Signature)
  | property (mods : MemberMods) (isAccessor : Bool) (key : Key) (mark : PropMark)
      (ann : Option Ty) (value : Option Expr)
  | index (mods : MemberMods) (param : Pat) (ann : Option Ty)
  | empty

/-- An expression with type arguments, as `extends` and `implements` hold them. -/
structure Heritage where
  expr : Expr
  args : List Ty

structure ClassBody where
  isAbstract : Bool
  tparams : List TypeParam
  base : Option Heritage
  implements : List Heritage
  members : List ClassMember

structure Interface where
  id : Ident
  declare : Bool
  tparams : List TypeParam
  bases : List Heritage
  members : List Member

inductive VarKind where
  | var_ | let_ | const_
deriving DecidableEq, Repr

structure Declarator where
  pat : Pat
  init : Option Expr

/-- An enum member with its initializer; a computed name is accepted. -/
structure EnumMember where
  key : Key
  init : Option Expr

/-- The name of a namespace, of an ambient module, or `global`. -/
inductive ModuleName where
  | ident (id : Ident)
  | str (lit : StrLit)
  | global
deriving DecidableEq, Repr

/-- An imported or exported name: a word or a string. -/
inductive ExportName where
  | word (text : String)
  | str (lit : StrLit)
deriving DecidableEq, Repr, Inhabited

def ExportName.text : ExportName → String
  | .word t => t
  | .str l => l.value

inductive ImportSpecifier where
  | named (imported : Option ExportName) (loc : String) (typeOnly : Bool)
  | default (loc : String)
  | all (loc : String)
deriving DecidableEq, Repr

structure ImportDecl where
  specifiers : List ImportSpecifier
  src : StrLit
  typeOnly : Bool
  attrs : Option Attributes
deriving DecidableEq, Repr

inductive ExportSpecifier where
  | named (orig : ExportName) (exported : Option ExportName) (typeOnly : Bool)
  | all (name : ExportName)
deriving DecidableEq, Repr

structure ExportList where
  specifiers : List ExportSpecifier
  src : Option StrLit
  typeOnly : Bool
  attrs : Option Attributes
deriving DecidableEq, Repr

structure ExportAll where
  src : StrLit
  typeOnly : Bool
  attrs : Option Attributes
deriving DecidableEq, Repr

/-- What `import x = …` refers to. -/
inductive ImportTarget where
  | entity (name : EntityName)
  | require (src : StrLit)
deriving DecidableEq, Repr

structure ImportEquals where
  isExport : Bool
  typeOnly : Bool
  id : Ident
  target : ImportTarget
deriving DecidableEq, Repr

/-- The name of a default exported class or function, or where a nameless one starts. -/
inductive DefaultName where
  | named (id : Ident)
  | anonymous (start : Nat)
deriving DecidableEq, Repr

inductive DefaultDecl where
  | cls (name : DefaultName) (body : ClassBody)
  | func (name : DefaultName) (body : Func)
  | interface (body : Interface)

mutual

inductive Decl where
  | cls (id : Ident) (declare : Bool) (body : ClassBody)
  | func (id : Ident) (declare : Bool) (body : Func)
  | var (kind : VarKind) (declare : Bool) (decls : List Declarator)
  | resource (isAwait : Bool) (decls : List Declarator)
  | interface (body : Interface)
  | typeAlias (id : Ident) (declare : Bool) (tparams : List TypeParam) (ty : Ty)
  | enum (id : Ident) (declare : Bool) (isConst : Bool) (members : List EnumMember)
  /-- `inner` holds the further names of `namespace A.B.C`. -/
  | space (declare : Bool) (name : ModuleName) (inner : List String) (body : Option (List Item))

inductive Item where
  | empty
  | expr (e : Expr)
  | decl (d : Decl)
  | importDecl (d : ImportDecl)
  | importEquals (d : ImportEquals)
  | exportDecl (d : Decl)
  | exportDefaultDecl (d : DefaultDecl)
  | exportDefaultExpr (e : Expr)
  | exportList (d : ExportList)
  | exportAll (d : ExportAll)
  | exportAssign (e : Expr)
  | exportAsNamespace (name : String)

end

instance : Inhabited Item := ⟨.empty⟩

structure Module where
  shebang : Option String
  body : List Item

end AmbientBundle.Syntax
