import StackExpr.Code.Pool
import StackExpr.Type.Kind

/-! Classes and methods of the library that code calls. -/
namespace StackExpr

namespace ClassName

def object : String := "java/lang/Object"
def number : String := "java/lang/Number"
def string : String := "java/lang/String"
def objects : String := "java/util/Objects"
def math : String := "java/lang/Math"
def map : String := "java/util/Map"
def list : String := "java/util/List"
def set : String := "java/util/Set"
def iterator : String := "java/util/Iterator"
def entry : String := "java/util/Map$Entry"

/-- Classes of maps; all of them keep insertion order. -/
def maps : List String := ["java/util/LinkedHashMap", "java/util/HashMap"]

def lists : List String := ["java/util/ArrayList", "java/util/LinkedList"]

end ClassName

namespace MethodRef

/-- Boxing of a primitive. -/
def box (k : Kind) : MethodRef :=
  ⟨k.wrapperClass, "valueOf", "(" ++ k.descriptor ++ ")L" ++ k.wrapperClass ++ ";"⟩

def accessor (owner : String) (k : Kind) : MethodRef :=
  ⟨owner, k.text ++ "Value", "()" ++ k.descriptor⟩

/-- Unboxing of a wrapper of exactly this kind. -/
def unbox (k : Kind) : MethodRef := accessor k.wrapperClass k

/-- Conversion of any numeric wrapper. -/
def numberValue (k : Kind) : MethodRef := accessor ClassName.number k

def stringOf : MethodRef :=
  ⟨ClassName.string, "valueOf", "(Ljava/lang/Object;)Ljava/lang/String;"⟩

def concat : MethodRef := ⟨ClassName.string, "concat", "(Ljava/lang/String;)Ljava/lang/String;"⟩

def equals : MethodRef := ⟨ClassName.objects, "equals", "(Ljava/lang/Object;Ljava/lang/Object;)Z"⟩

def pow : MethodRef := ⟨ClassName.math, "pow", "(DD)D"⟩

def init (owner : String) : MethodRef := ⟨owner, "<init>", "()V"⟩

def put (owner : String) : MethodRef :=
  ⟨owner, "put", "(Ljava/lang/Object;Ljava/lang/Object;)Ljava/lang/Object;"⟩

def add (owner : String) : MethodRef := ⟨owner, "add", "(Ljava/lang/Object;)Z"⟩

def entrySet : MethodRef := ⟨ClassName.map, "entrySet", "()Ljava/util/Set;"⟩

def iterator : MethodRef := ⟨ClassName.set, "iterator", "()Ljava/util/Iterator;"⟩

def hasNext : MethodRef := ⟨ClassName.iterator, "hasNext", "()Z"⟩

def next : MethodRef := ⟨ClassName.iterator, "next", "()Ljava/lang/Object;"⟩

def getKey : MethodRef := ⟨ClassName.entry, "getKey", "()Ljava/lang/Object;"⟩

def getValue : MethodRef := ⟨ClassName.entry, "getValue", "()Ljava/lang/Object;"⟩

end MethodRef
end StackExpr
