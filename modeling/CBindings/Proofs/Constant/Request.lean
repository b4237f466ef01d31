import CBindings.Constant.Evaluation

/-! All that an evaluator of constants can be asked for. -/

namespace CBindings

inductive ConstantRequest where
  | tokens (list : List Token)
  | constant (name : String)
  | enum (symbol : Symbol)
  | enumerator (name : String)
  | extent (size : Extent)

inductive ConstantReply where
  | value (result : Option ConstantValue)
  | enum (values : List (String × Option Int))
  | number (n : Option Int)

namespace ConstantScope

def reply (scope : ConstantScope) : ConstantRequest → Remembering ConstantReply
  | .tokens list => .value <$> scope.evaluate list
  | .constant name => .value <$> scope.evaluateConstant name
  | .enum symbol => .enum <$> scope.evaluateEnum symbol
  | .enumerator name => .number <$> scope.evaluateEnumerator name
  | .extent size => .number <$> scope.evaluateExtent size

/-- The replies of one evaluator to some requests in a row. -/
def replies (scope : ConstantScope) (requests : List ConstantRequest) :
    Remembering (List ConstantReply) :=
  requests.mapM scope.reply

end ConstantScope

end CBindings
