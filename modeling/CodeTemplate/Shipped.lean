import CodeTemplate.Generator.Basic

/-! The templates for Java that come with the library: classes for models, methods, and the
parameter lists of methods. -/

namespace CodeTemplate.Shipped

/-- A class with a field and a getter for each property of `model`. -/
def model : String := Text.unlines [
  "\x7b% language java -%\x7d",
  "\x7b% copyright_block %\x7d",
  "package \x7b\x7b model.module.name \x7d\x7d;",
  "",
  "\x7b% imports model -%\x7d",
  "import java.util.List;",
  "\x7b% endimports -%\x7d",
  "",
  "\x7b% if model.description -%\x7d",
  "\x7b% doc_comment_if model %\x7d",
  "\x7b% endif -%\x7d",
  "public class \x7b\x7b model.className \x7d\x7d \x7b",
  "\x7b% for p in model.properties -%\x7d",
  "\x7b% if p.description -%\x7d",
  "  \x7b% doc_comment_if p %\x7d",
  "\x7b% endif -%\x7d",
  "  private \x7b\x7b p.codeType \x7d\x7d \x7b\x7b p.codeName \x7d\x7d;",
  "\x7b% endfor -%\x7d",
  "\x7b% for p in model.properties %\x7d",
  "  public \x7b\x7b p.codeType \x7d\x7d get\x7b\x7b p.codeName|capfirst \x7d\x7d() \x7b",
  "    return \x7b\x7b p.codeName \x7d\x7d;",
  "  \x7d",
  "\x7b% endfor -%\x7d",
  "\x7d",
  ""]

/-- A method that runs the request of `method`. -/
def method : String := Text.unlines [
  "\x7b% language java -%\x7d",
  "\x7b% if method.description -%\x7d",
  "\x7b% doc_comment_if method %\x7d",
  "\x7b% endif -%\x7d",
  "public \x7b% if method.responseType %\x7d\x7b\x7b method.responseType.className \x7d\x7d\x7b% else %\x7dvoid\x7b% endif %\x7d \x7b\x7b method.codeName \x7d\x7d\x7b% call_template java/method_signature method=method %\x7d \x7b",
  "  return execute(\x7b% literal method.httpMethod %\x7d, \x7b% literal method.path %\x7d);",
  "\x7d",
  ""]

/-- The parameters of `method`: the required ones, the request body, and the optional ones in a
group. -/
def methodSignature : String := Text.unlines [
  "\x7b% comment %\x7dRequired parameters, the request body, then optional parameters grouped.\x7b% endcomment -%\x7d",
  "\x7b% parameter_list -%\x7d",
  "\x7b% for p in method.requiredParameters -%\x7d",
  "\x7b% parameter %\x7d\x7b\x7b p.codeType \x7d\x7d \x7b\x7b p.codeName \x7d\x7d\x7b% end_parameter %\x7d",
  "\x7b% endfor -%\x7d",
  "\x7b% if method.requestType -%\x7d",
  "\x7b% parameter %\x7d\x7b\x7b method.requestType.className \x7d\x7d content\x7b% end_parameter %\x7d",
  "\x7b% endif -%\x7d",
  "\x7b% for p in method.optionalParameters -%\x7d",
  "\x7b% parameter group %\x7d\x7b\x7b p.codeType \x7d\x7d \x7b\x7b p.codeName \x7d\x7d\x7b% end_parameter %\x7d",
  "\x7b% endfor -%\x7d",
  "\x7b% end_parameter_list -%\x7d",
  ""]

def texts : List (String × String) := [
  ("java/method.tmpl", method),
  ("java/method_signature.tmpl", methodSignature),
  ("java/model.tmpl", model)]

/-- The texts as a source; their names are keys already. -/
def source : Source := texts

end CodeTemplate.Shipped
