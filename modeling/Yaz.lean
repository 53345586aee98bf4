import Yaz.Odr.Dependence
import Yaz.Odr.Framing
import Yaz.Comstack.Put
import Yaz.Comstack.Stability
import Yaz.Pqf.History
import Yaz.Zoom.Exchange
import Yaz.Server.Pipelining
import Yaz.Zoom.Survival
import Yaz.Zoom.QueryHistory
import Yaz.Zoom.CacheKey
import Yaz.Xml.RpnRoundTrip
import Yaz.Marc.Diagnostics
import Yaz.Marc.LineRoundTrip
import Yaz.Marc.JsonRoundTrip
import Yaz.Iconv.Utf8Conversion
import Yaz.Iconv.DanmarcRuns
import Yaz.Odr.Codecs
import Yaz.Odr.FixedBuffer
import Yaz.Odr.Reassembly
import Yaz.Text.Base64
import Yaz.Text.Uri
import Yaz.Cql.Words
import Yaz.Server.SruFacetRoundTrip
import Yaz.Zoom.RecordCache
import Yaz.Ccl.SplitList
import Yaz.Cql.XcqlComplete
import Yaz.Ccl.StopWords
import Yaz.Ccl.Truncation
import Yaz.Ccl.Wholeness
import Yaz.Ccl.QualFields
import Yaz.Wrbuf.QueryCharset
import Yaz.Marc.ReadingBounds
import Yaz.Marc.Iso2709RoundTrip
import Yaz.Xml.Defects
import Yaz.Solr.Ranges
import Yaz.Server.SruWindow
import Yaz.Solr.Parameters
import Yaz.Oid.Dotted
import Yaz.Text.Glob
import Yaz.Text.StrSplit
import Yaz.Oid.Database
import Yaz.Server.UcpCodec
import Yaz.Odr.Growth
import Yaz.Nmem.Allocator
