import WafWasm.FormEncoding
import WafWasm.CookieEncoding
import WafWasm.EscapeReference
import WafWasm.ParserReference
import WafWasm.MachineParser
import WafWasm.ParameterCoverage
import WafWasm.SelectiveScan
import WafWasm.ConfigAcceptance
import WafWasm.ConfigVerdicts
import WafWasm.ConfigShapes
import WafWasm.RejectedConfig
import WafWasm.Reconfiguration
import WafWasm.RequestInspection
import WafWasm.HeaderSpelling
import WafWasm.ExcludedCookies
import WafWasm.ContentType
import WafWasm.BodyChunks
import WafWasm.Streams
import WafWasm.BodyInspection
import WafWasm.FoldShapes
import WafWasm.Verdicts
import WafWasm.QuoteContexts
import WafWasm.StringLiterals
import WafWasm.RespelledVerdicts
import WafWasm.Sentences
import WafWasm.DetectedRuns
